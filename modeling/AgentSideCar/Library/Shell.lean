import Mathlib.Logic.Basic

namespace AgentSideCar.Shell
variable {α : Type} [DecidableEq α]

-- What separates, quotes and escapes: within `escaped` quotes the escape still counts.
structure Rules (α : Type) where
  blank : α → Bool
  quotes : α → Bool
  escaped : α → Bool
  escape : α → Bool

inductive Mode (α : Type) where
  | blank
  | word
  | quote (q : α)
  | escape (within : Option α) (escape : α)

-- The words of a command line as a shell reads them, or nothing when a quote
-- is not closed or nothing follows an escape. An empty word counts when quoted.
def scan (r : Rules α) : Mode α → List α → Bool → List α → Option (List (List α))
  | .blank,_,_,[] => some []
  | .word,token,quoted,[] => some (if token.isEmpty && !quoted then [] else [token])
  | .quote _,_,_,[] => none
  | .escape _ _,_,_,[] => none
  | .blank,_,_,c :: rest =>
    if r.blank c then scan r .blank [] false rest
    else if r.escape c then scan r (.escape none c) [] false rest
    else if r.quotes c then scan r (.quote c) [] false rest
    else scan r .word [c] false rest
  | .word,token,quoted,c :: rest =>
    if r.blank c then
      (scan r .blank [] false rest).map fun tokens => if token.isEmpty && !quoted then tokens else token :: tokens
    else if r.quotes c then scan r (.quote c) token quoted rest
    else if r.escape c then scan r (.escape none c) token quoted rest
    else scan r .word (token ++ [c]) quoted rest
  | .quote q,token,_,c :: rest =>
    if c = q then scan r .word token true rest
    else if r.escape c && r.escaped q then scan r (.escape (some q) c) token true rest
    else scan r (.quote q) (token ++ [c]) true rest
  | .escape none _,token,quoted,c :: rest => scan r .word (token ++ [c]) quoted rest
  | .escape (some q) e,token,quoted,c :: rest =>
    -- Within quotes only the quote and the escape itself are escaped.
    if c ≠ e ∧ c ≠ q then scan r (.quote q) (token ++ [e,c]) quoted rest
    else scan r (.quote q) (token ++ [c]) quoted rest

def split (r : Rules α) (command : List α) : Option (List (List α)) := scan r .blank [] false command

def Plain (r : Rules α) (word : List α) : Prop :=
  word ≠ [] ∧ ∀ c ∈ word, r.blank c = false ∧ r.quotes c = false ∧ r.escape c = false

variable {r : Rules α}

theorem scan_word (token word rest : List α) (some' : token ≠ [])
    (plain : ∀ c ∈ word, r.blank c = false ∧ r.quotes c = false ∧ r.escape c = false) :
    scan r .word token false (word ++ rest) = scan r .word (token ++ word) false rest := by
  induction word generalizing token with
  | nil => simp
  | cons c word ih =>
    obtain ⟨solid,quoteless,escapeless⟩ := plain c List.mem_cons_self
    have later := ih (token ++ [c]) (by simp) fun c inside => plain c (List.mem_cons_of_mem _ inside)
    simpa [scan,solid,quoteless,escapeless] using later

theorem split_plain {sep : α} (separates : r.blank sep = true) {first : List α} {words : List (List α)}
    (plain : ∀ word ∈ first :: words, Plain r word) :
    split r (first ++ words.flatMap (sep :: ·)) = some (first :: words) := by
  unfold split
  induction words generalizing first with
  | nil =>
    obtain ⟨some',clean⟩ := plain first List.mem_cons_self
    obtain ⟨c,later,rfl⟩ := List.exists_cons_of_ne_nil some'
    obtain ⟨solid,quoteless,escapeless⟩ := clean c List.mem_cons_self
    have whole := scan_word [c] later [] (List.cons_ne_nil _ _) fun c inside => clean c (List.mem_cons_of_mem _ inside)
    rw [List.append_nil] at whole
    simp only [List.flatMap_nil,List.append_nil,scan,solid,quoteless,escapeless,if_false,Bool.false_eq_true,whole]
    simp
  | cons next rest ih =>
    have later := ih fun word inside => plain word (List.mem_cons_of_mem _ inside)
    obtain ⟨some',clean⟩ := plain first List.mem_cons_self
    obtain ⟨c,word,rfl⟩ := List.exists_cons_of_ne_nil some'
    obtain ⟨solid,quoteless,escapeless⟩ := clean c List.mem_cons_self
    have whole := scan_word [c] word ((next :: rest).flatMap (sep :: ·)) (List.cons_ne_nil _ _)
      fun c inside => clean c (List.mem_cons_of_mem _ inside)
    simp only [List.cons_append,scan,solid,quoteless,escapeless,if_false,Bool.false_eq_true,whole]
    simp only [List.flatMap_cons,List.cons_append,scan,separates,if_true,later,Option.map_some]
    simp

end AgentSideCar.Shell
