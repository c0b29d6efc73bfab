import AgentSideCar.Library.Digits
import AgentSideCar.Library.Loads
import AgentSideCar.Library.Utf8
import AgentSideCar.Library.Words
import Mathlib.Tactic.Tauto

namespace AgentSideCar.Dumps
open Loads (Text str)

-- A value in memory; a float is the interpreter's own.
inductive Object (F : Type) where
  | null
  | bool (value : Bool)
  | int (value : Int)
  | float (value : F)
  | text (value : Text)
  | list (items : List (Object F))
  | dict (fields : List (Text × Object F))

-- Any character but these stands for itself.
def hexDigit (n : Nat) : Nat := if n < 10 then 48 + n else 87 + n

def escape (c : Nat) : Text :=
  if c = 34 then str "\\\"" else if c = 92 then str "\\\\" else if c = 10 then str "\\n" else if c = 13 then str "\\r"
  else if c = 9 then str "\\t" else if c = 8 then str "\\b" else if c = 12 then str "\\f"
  else if c < 32 then str "\\u00" ++ [hexDigit (c / 16),hexDigit (c % 16)] else [c]

def quoted (value : Text) : Text := Loads.quote :: (value.flatMap escape ++ [Loads.quote])

-- How an interpreter writes numbers, those it refuses apart, and the nesting it bears.
structure Writer (F : Type) where
  depth : Nat
  integer : Int → Option Text
  float : F → Option Text

def word : Bool → Text
  | true => str "true"
  | false => str "false"

def enclosed (opening closing : Nat) (parts : List Text) : Text := opening :: (Words.join Loads.comma parts ++ [closing])

mutual
def dumps (w : Writer F) (level : Nat) : Object F → Option Text
  | .null => some (str "null")
  | .bool value => some (word value)
  | .int value => w.integer value
  | .float value => w.float value
  | .text value => some (quoted value)
  | .list items =>
    if w.depth ≤ level then none else (dumpsItems w (level + 1) items).map (enclosed Loads.openList Loads.closeList)
  | .dict fields =>
    if w.depth ≤ level then none else (dumpsFields w (level + 1) fields).map (enclosed Loads.openDict Loads.closeDict)

def dumpsItems (w : Writer F) (level : Nat) : List (Object F) → Option (List Text)
  | [] => some []
  | item :: items =>
    match dumps w level item,dumpsItems w level items with
    | some part,some parts => some (part :: parts)
    | _,_ => none

def dumpsFields (w : Writer F) (level : Nat) : List (Text × Object F) → Option (List Text)
  | [] => some []
  | (key,item) :: fields =>
    match dumps w level item,dumpsFields w level fields with
    | some part,some parts => some ((quoted key ++ Loads.colon :: part) :: parts)
    | _,_ => none
end

-- What a value that is read is in memory.
mutual
def object (read : Int → Int → F) : Loads.Value → Object F
  | .null => .null
  | .bool value => .bool value
  | .int value => .int value
  | .float mantissa exponent => .float (read mantissa exponent)
  | .text value => .text value
  | .list items => .list (objects read items)
  | .dict fields => .dict (entries read fields)

def objects (read : Int → Int → F) : List Loads.Value → List (Object F)
  | [] => []
  | item :: items => object read item :: objects read items

def entries (read : Int → Int → F) : List (Text × Loads.Value) → List (Text × Object F)
  | [] => []
  | (key,item) :: fields => (key,object read item) :: entries read fields
end

-- A number is one word for a reader, and reads as what it was.
structure Numeral (t : Text) (value : Loads.Value) : Prop where
  inner : ∀ c ∈ t, Loads.endsAtom c = false
  narrow : ∀ c ∈ t, c < 128
  reads : Loads.atomValue t = some value

structure Exact (w : Writer F) (read : Int → Int → F) : Prop where
  integer : ∀ n t, w.integer n = some t → Numeral t (.int n)
  float : ∀ x t, w.float x = some t → ∃ mantissa exponent, Numeral t (.float mantissa exponent) ∧ read mantissa exponent = x

-- A character that a text or a key within has.
inductive Holds {F : Type} (c : Nat) : Object F → Prop where
  | text {t : Text} (inside : c ∈ t) : Holds c (.text t)
  | item {items : List (Object F)} {o : Object F} (inside : o ∈ items) (own : Holds c o) : Holds c (.list items)
  | key {fields : List (Text × Object F)} {field : Text × Object F} (inside : field ∈ fields) (own : c ∈ field.1) : Holds c (.dict fields)
  | value {fields : List (Text × Object F)} {field : Text × Object F} (inside : field ∈ fields) (own : Holds c field.2) : Holds c (.dict fields)

-- No object within has two fields of one key.
inductive Distinct {F : Type} : Object F → Prop where
  | null : Distinct .null
  | bool (value : Bool) : Distinct (.bool value)
  | int (value : Int) : Distinct (.int value)
  | float (value : F) : Distinct (.float value)
  | text (value : Text) : Distinct (.text value)
  | list {items : List (Object F)} (all : ∀ item ∈ items, Distinct item) : Distinct (.list items)
  | dict {fields : List (Text × Object F)} (unique : (fields.map Prod.fst).Nodup) (all : ∀ field ∈ fields, Distinct field.2) : Distinct (.dict fields)

section Reading
open Loads (State Mode Open run step start complete startValue endsAtom blank comma colon quote openList closeList openDict closeDict)
variable {F : Type} {w : Writer F} {read : Int → Int → F}

theorem run_cons (stepped : step s c = some t) (rest : Text) : run s (c :: rest) = run t rest := by rw [run,stepped]; rfl

theorem putUnit_plain (plain : unit < 55296) (out : Text) : Loads.putUnit unit out = unit :: out := by
  cases out with
  | nil => rfl
  | cons high rest => exact if_neg (by omega)

theorem hexDigit_value : ∀ n < 16, Loads.hexValue (hexDigit n) = some n := by decide

theorem run_control (isKey : Bool) (out : Text) (stack : List Open) (control : c < 32) (more : Text) :
    run ⟨.string isKey out,stack⟩ (str "\\u00" ++ [hexDigit (c / 16),hexDigit (c % 16)] ++ more) = run ⟨.string isKey (c :: out),stack⟩ more := by
  have high := hexDigit_value (c / 16) (by omega)
  have low := hexDigit_value (c % 16) (by omega)
  have third : step ⟨.unicode isKey out [0,0],stack⟩ (hexDigit (c / 16)) = some ⟨.unicode isKey out [0,0,c / 16],stack⟩ := by
    simp [step,high]
  have last : step ⟨.unicode isKey out [0,0,c / 16],stack⟩ (hexDigit (c % 16)) = some ⟨.string isKey (c :: out),stack⟩ := by
    simp only [step,low,List.length_cons,List.length_nil,if_true,List.cons_append,List.nil_append,List.foldl_cons,List.foldl_nil]
    have whole : 16 * (16 * (16 * (16 * 0 + 0) + 0) + c / 16) + c % 16 = c := by omega
    rw [whole,putUnit_plain (by omega)]
  have lead : run ⟨.string isKey out,stack⟩ (str "\\u00" ++ ([hexDigit (c / 16),hexDigit (c % 16)] ++ more)) =
      run ⟨.unicode isKey out [0,0],stack⟩ ([hexDigit (c / 16),hexDigit (c % 16)] ++ more) := rfl
  rw [List.append_assoc,lead]
  exact (run_cons third _).trans (run_cons last more)

theorem run_escape (isKey : Bool) (out : Text) (stack : List Open) (c : Nat) (more : Text) :
    run ⟨.string isKey out,stack⟩ (escape c ++ more) = run ⟨.string isKey (c :: out),stack⟩ more := by
  by_cases short : c ∈ [34,92,10,13,9,8,12]
  · simp only [List.mem_cons,List.not_mem_nil,or_false] at short
    rcases short with rfl | rfl | rfl | rfl | rfl | rfl | rfl <;> rfl
  simp only [List.mem_cons,List.not_mem_nil,or_false,not_or] at short
  obtain ⟨quotes,slash,feed,ret,tab,back,form⟩ := short
  unfold escape
  rw [if_neg quotes,if_neg slash,if_neg feed,if_neg ret,if_neg tab,if_neg back,if_neg form]
  split
  · rename_i control
    exact run_control isKey out stack control more
  · rename_i plain
    refine run_cons ?_ more
    simp [step,quote,Loads.backslash,quotes,slash,plain]

theorem run_escapes (isKey : Bool) (out t : Text) (stack : List Open) (more : Text) :
    run ⟨.string isKey out,stack⟩ (t.flatMap escape ++ more) = run ⟨.string isKey (t.reverse ++ out),stack⟩ more := by
  induction t generalizing out with
  | nil => rfl
  | cons c rest ih =>
    rw [List.flatMap_cons,List.append_assoc,run_escape,ih,List.reverse_cons,List.append_assoc]
    rfl

-- A text is read as a value wherever one is due.
def Reads (t : Text) (value : Loads.Value) : Prop := ∃ c rest, t = c :: rest ∧ blank c = false ∧ c ≠ closeList ∧
  ∀ stack d more, endsAtom d = true → (startValue c stack).bind (run · (rest ++ d :: more)) = run (complete value stack) (d :: more)

theorem run_atom (inner : ∀ c ∈ t, endsAtom c = false) (early : Text) (stack : List Open) (more : Text) :
    run ⟨.atom early,stack⟩ (t ++ more) = run ⟨.atom (t.reverse ++ early),stack⟩ more := by
  induction t generalizing early with
  | nil => rfl
  | cons c rest ih =>
    have stepped : step ⟨.atom early,stack⟩ c = some ⟨.atom (c :: early),stack⟩ := if_neg (by simp [inner c List.mem_cons_self])
    rw [List.cons_append,run_cons stepped,ih fun d inside => inner d (List.mem_cons_of_mem _ inside),List.reverse_cons,List.append_assoc]
    rfl

theorem endsAtom_not (inner : endsAtom c = false) : blank c = false ∧ c ≠ quote ∧ c ≠ comma ∧ c ≠ colon ∧ c ≠ openList ∧
    c ≠ closeList ∧ c ≠ openDict ∧ c ≠ closeDict := by
  simp only [endsAtom,Bool.or_eq_false_iff,decide_eq_false_iff_not] at inner
  tauto

theorem numeral_reads (numeral : Numeral t value) : Reads t value := by
  obtain ⟨inner,_,reads⟩ := numeral
  cases t with
  | nil => cases reads
  | cons c rest =>
    obtain ⟨solid,quote',comma',colon',openList',closeList',openDict',closeDict'⟩ := endsAtom_not (inner c List.mem_cons_self)
    have started (stack : List Open) : startValue c stack = some ⟨.atom [c],stack⟩ := by
      unfold startValue
      rw [if_neg quote',if_neg openList',if_neg openDict',if_neg (by tauto)]
    refine ⟨c,rest,rfl,solid,closeList',fun stack d more ends => ?_⟩
    have stepped : step ⟨.atom (rest.reverse ++ [c]),stack⟩ d = step (complete value stack) d := by
      rw [Loads.step_complete]
      unfold step
      simp only [ends,if_true,List.reverse_append,List.reverse_reverse,List.reverse_singleton,List.singleton_append,reads,Option.bind_some]
    rw [started,Option.bind_some,run_atom (fun e inside => inner e (List.mem_cons_of_mem _ inside)),run,run,stepped]

theorem text_reads (t : Text) : Reads (quoted t) (.text t) := by
  refine ⟨quote,t.flatMap escape ++ [quote],rfl,rfl,by decide,fun stack d more _ => ?_⟩
  have opened : startValue quote stack = some ⟨.string false [],stack⟩ := rfl
  rw [opened,Option.bind_some,List.append_assoc,run_escapes,List.append_nil,List.singleton_append]
  have closed : step ⟨.string false t.reverse,stack⟩ quote = some (complete (.text t) stack) := by
    simp [step]
  exact run_cons closed _

theorem join_parts (part : Text) (parts : List Text) : Words.join comma (part :: parts) = part ++ parts.flatMap (comma :: ·) := by
  induction parts generalizing part with
  | nil => rw [List.flatMap_nil,List.append_nil]; rfl
  | cons next parts ih => rw [List.flatMap_cons,List.cons_append,← ih next]; rfl

theorem parts_end (parts : List Text) (closing : Nat) (ends : endsAtom closing = true) (more : Text) :
    ∃ d rest, parts.flatMap (comma :: ·) ++ closing :: more = d :: rest ∧ endsAtom d = true := by
  cases parts with
  | nil => exact ⟨closing,more,rfl,ends⟩
  | cons part parts => exact ⟨comma,_,rfl,rfl⟩

theorem run_value (solid : blank c = false) (stack : List Open) (rest : Text) :
    run ⟨.value,stack⟩ (c :: rest) = (startValue c stack).bind (run · rest) := by
  have stepped : step ⟨.value,stack⟩ c = startValue c stack := if_neg (by simp [solid])
  rw [run,stepped]

theorem items_read (all : List.Forall₂ Reads parts values) (done : List Loads.Value) (stack : List Open) (more : Text) :
    run ⟨.after,.list done :: stack⟩ (parts.flatMap (comma :: ·) ++ closeList :: more) =
      run (complete (.list (done.reverse ++ values)) stack) more := by
  induction all generalizing done with
  | nil =>
    rw [List.append_nil]
    exact run_cons rfl more
  | @cons part value parts values own _ ih =>
    obtain ⟨c,rest,rfl,solid,_,reads⟩ := own
    obtain ⟨d,tail,shape,ends⟩ := parts_end parts closeList rfl more
    have next : step ⟨.after,.list done :: stack⟩ comma = some ⟨.value,.list done :: stack⟩ := rfl
    rw [List.flatMap_cons,List.append_assoc,List.cons_append,run_cons next,List.cons_append,run_value solid,shape,reads _ d tail ends,← shape]
    exact (ih (value :: done)).trans (by rw [List.reverse_cons,List.append_assoc]; rfl)

theorem list_reads (all : List.Forall₂ Reads parts values) : Reads (enclosed openList closeList parts) (.list values) := by
  refine ⟨openList,_,rfl,rfl,by decide,fun stack d more _ => ?_⟩
  have opened : startValue openList stack = some ⟨.first,.list [] :: stack⟩ := rfl
  rw [opened,Option.bind_some,List.append_assoc,List.singleton_append]
  cases all with
  | nil => exact run_cons rfl _
  | @cons part value parts values own later =>
    obtain ⟨c,rest,rfl,solid,inner,reads⟩ := own
    obtain ⟨e,tail,shape,ends⟩ := parts_end parts closeList rfl (d :: more)
    have begun : step ⟨.first,.list [] :: stack⟩ c = startValue c (.list [] :: stack) := by
      simp [step,solid,inner]
    rw [join_parts,List.append_assoc,List.cons_append,run,begun,shape,reads _ e tail ends,← shape]
    exact items_read later [value] stack (d :: more)

-- A key, a colon and a value.
def Member (part : Text) (field : Text × Loads.Value) : Prop := ∃ own, part = quoted field.1 ++ colon :: own ∧ Reads own field.2

theorem member_read (reads : Reads own value) (ends : endsAtom d = true) (key before : Text) (done : List (Text × Loads.Value))
    (stack : List Open) (more : Text) : run ⟨.string true [],.dict done before :: stack⟩ (key.flatMap escape ++ quote :: colon :: (own ++ d :: more)) =
      run ⟨.after,.dict ((key,value) :: done) [] :: stack⟩ (d :: more) := by
  obtain ⟨c,rest,rfl,solid,_,reads⟩ := reads
  have closed : step ⟨.string true key.reverse,.dict done before :: stack⟩ quote = some ⟨.colon,.dict done key :: stack⟩ := by
    simp [step,Loads.setKey]
  have next : step ⟨.colon,.dict done key :: stack⟩ colon = some ⟨.value,.dict done key :: stack⟩ := rfl
  rw [run_escapes,List.append_nil,run_cons closed,run_cons next,List.cons_append,run_value solid,reads _ d more ends]
  rfl

theorem close_read (unique : (fields.map Prod.fst).Nodup) (stack : List Open) :
    Loads.closeDictionary fields stack = some (complete (.dict fields.reverse) stack) := if_pos unique

theorem members_read (all : List.Forall₂ Member parts fields) (done : List (Text × Loads.Value)) (before : Text) (stack : List Open) (more : Text)
    (unique : ((done.reverse ++ fields).map Prod.fst).Nodup) :
    run ⟨.after,.dict done before :: stack⟩ (parts.flatMap (comma :: ·) ++ closeDict :: more) =
      run (complete (.dict (done.reverse ++ fields)) stack) more := by
  induction all generalizing done before with
  | nil =>
    rw [List.append_nil] at unique ⊢
    have own : (done.map Prod.fst).Nodup := by rwa [List.map_reverse,List.nodup_reverse] at unique
    have closed : step ⟨.after,.dict done before :: stack⟩ closeDict = some (complete (.dict done.reverse) stack) := close_read own stack
    exact run_cons closed more
  | @cons part field parts fields own _ ih =>
    obtain ⟨text,rfl,reads⟩ := own
    obtain ⟨d,tail,shape,ends⟩ := parts_end parts closeDict rfl more
    have next : step ⟨.after,.dict done before :: stack⟩ comma = some ⟨.key,.dict done before :: stack⟩ := rfl
    have opened : step ⟨.key,.dict done before :: stack⟩ quote = some ⟨.string true [],.dict done before :: stack⟩ := rfl
    have read := member_read reads ends field.1 before done stack tail
    rw [List.flatMap_cons,List.append_assoc,List.cons_append,run_cons next,quoted,List.append_assoc,List.cons_append,run_cons opened,
      List.append_assoc,List.singleton_append,List.cons_append,shape,read,← shape]
    have whole : (field :: done).reverse ++ fields = done.reverse ++ field :: fields := by rw [List.reverse_cons,List.append_assoc]; rfl
    rw [← whole]
    exact ih (field :: done) [] (by rwa [whole])

theorem opened_read (all : List.Forall₂ Member parts fields) (unique : (fields.map Prod.fst).Nodup) (stack : List Open) (more : Text) :
    run ⟨.first,.dict [] [] :: stack⟩ (Words.join comma parts ++ closeDict :: more) = run (complete (.dict fields) stack) more := by
  cases all with
  | nil => exact run_cons rfl more
  | @cons part field parts fields own later =>
    obtain ⟨text,rfl,reads⟩ := own
    obtain ⟨d,tail,shape,ends⟩ := parts_end parts closeDict rfl more
    have opened : step ⟨.first,.dict [] [] :: stack⟩ quote = some ⟨.string true [],.dict [] [] :: stack⟩ := rfl
    have read := member_read reads ends field.1 [] [] stack tail
    rw [join_parts,List.append_assoc,quoted,List.append_assoc,List.cons_append,run_cons opened,List.append_assoc,List.singleton_append,
      List.cons_append,shape,read,← shape]
    exact members_read later [field] [] stack more unique

theorem dict_reads (all : List.Forall₂ Member parts fields) (unique : (fields.map Prod.fst).Nodup) :
    Reads (enclosed openDict closeDict parts) (.dict fields) := by
  refine ⟨openDict,_,rfl,rfl,by decide,fun stack d more _ => ?_⟩
  have opened : startValue openDict stack = some ⟨.first,.dict [] [] :: stack⟩ := rfl
  rw [opened,Option.bind_some,List.append_assoc,List.singleton_append]
  exact opened_read all unique stack (d :: more)

theorem dict_parsed (all : List.Forall₂ Member parts fields) (unique : (fields.map Prod.fst).Nodup) :
    Loads.parse (enclosed openDict closeDict parts) = some (.dict fields) := by
  have opened : step start openDict = some ⟨.first,.dict [] [] :: []⟩ := rfl
  have ran : run start (enclosed openDict closeDict parts) = run (complete (.dict fields) []) [] :=
    (run_cons opened _).trans (opened_read all unique [] [])
  rw [Loads.parse,ran]
  rfl

end Reading

section Written
variable {F : Type} {w : Writer F} {read : Int → Int → F}

theorem entries_keys (fields : List (Text × Loads.Value)) : (entries read fields).map Prod.fst = fields.map Prod.fst := by
  induction fields with
  | nil => rfl
  | cons field fields ih => exact congrArg (field.1 :: ·) ih

-- What is written is read again as a value that is the same in memory.
mutual
theorem dumps_reads (exact' : Exact w read) (distinct : Distinct o) (written : dumps w level o = some t) :
    ∃ value, Reads t value ∧ object read value = o := by
  match o with
  | .null =>
    cases written
    exact ⟨.null,numeral_reads ⟨by decide,by decide,rfl⟩,rfl⟩
  | .bool value =>
    cases written
    cases value with
    | true => exact ⟨.bool true,numeral_reads ⟨by decide,by decide,rfl⟩,rfl⟩
    | false => exact ⟨.bool false,numeral_reads ⟨by decide,by decide,rfl⟩,rfl⟩
  | .int n => exact ⟨.int n,numeral_reads (exact'.integer n t written),rfl⟩
  | .float x =>
    obtain ⟨m,e,numeral,rfl⟩ := exact'.float x t written
    exact ⟨.float m e,numeral_reads numeral,rfl⟩
  | .text text =>
    cases written
    exact ⟨.text text,text_reads text,rfl⟩
  | .list items =>
    cases distinct with
    | list all =>
      rw [dumps] at written
      split at written
      · cases written
      · obtain ⟨parts,made,rfl⟩ := Option.map_eq_some_iff.mp written
        obtain ⟨values,reads,rfl⟩ := items_reads exact' all made
        exact ⟨.list values,list_reads reads,rfl⟩
  | .dict fields =>
    cases distinct with
    | dict unique all =>
      rw [dumps] at written
      split at written
      · cases written
      · obtain ⟨parts,made,rfl⟩ := Option.map_eq_some_iff.mp written
        obtain ⟨values,reads,rfl⟩ := fields_reads exact' all made
        exact ⟨.dict values,dict_reads reads (by rwa [entries_keys] at unique),rfl⟩

theorem items_reads (exact' : Exact w read) (all : ∀ item ∈ items, Distinct item) (written : dumpsItems w level items = some parts) :
    ∃ values, List.Forall₂ Reads parts values ∧ objects read values = items := by
  match items with
  | [] =>
    cases written
    exact ⟨[],.nil,rfl⟩
  | item :: items =>
    rw [dumpsItems] at written
    split at written
    · rename_i part rest own later
      cases written
      obtain ⟨value,reads,rfl⟩ := dumps_reads exact' (all item List.mem_cons_self) own
      obtain ⟨values,more,rfl⟩ := items_reads exact' (fun item inside => all item (List.mem_cons_of_mem _ inside)) later
      exact ⟨value :: values,.cons reads more,rfl⟩
    · cases written

theorem fields_reads (exact' : Exact w read) (all : ∀ field ∈ fields, Distinct field.2) (written : dumpsFields w level fields = some parts) :
    ∃ values, List.Forall₂ Member parts values ∧ entries read values = fields := by
  match fields with
  | [] =>
    cases written
    exact ⟨[],.nil,rfl⟩
  | (key,item) :: fields =>
    rw [dumpsFields] at written
    split at written
    · rename_i part rest own later
      cases written
      obtain ⟨value,reads,rfl⟩ := dumps_reads exact' (all (key,item) List.mem_cons_self) own
      obtain ⟨values,more,rfl⟩ := fields_reads exact' (fun field inside => all field (List.mem_cons_of_mem _ inside)) later
      exact ⟨(key,value) :: values,.cons ⟨part,rfl,reads⟩ more,rfl⟩
    · cases written
end

theorem dict_written (exact' : Exact w read) (distinct : Distinct (.dict fields)) (written : dumps w level (.dict fields) = some t) :
    ∃ values, Loads.parse t = some (.dict values) ∧ entries read values = fields := by
  cases distinct with
  | dict unique all =>
    rw [dumps] at written
    split at written
    · cases written
    · obtain ⟨parts,made,rfl⟩ := Option.map_eq_some_iff.mp written
      obtain ⟨values,reads,rfl⟩ := fields_reads exact' all made
      exact ⟨values,dict_parsed reads (by rwa [entries_keys] at unique),rfl⟩

end Written

section Parsed
open Loads (State Mode Open run step complete)
variable {F : Type} {read : Int → Int → F} {s t : State} {c : Nat}

theorem objects_mem : ∀ {items : List Loads.Value} {o : Object F}, o ∈ objects read items → ∃ item ∈ items, o = object read item
  | [],_,inside => nomatch inside
  | item :: items,o,inside => by
    rcases List.mem_cons.mp inside with rfl | later
    · exact ⟨item,List.mem_cons_self,rfl⟩
    · obtain ⟨other,among,same⟩ := objects_mem later
      exact ⟨other,List.mem_cons_of_mem _ among,same⟩

theorem entries_mem : ∀ {fields : List (Text × Loads.Value)} {o : Text × Object F}, o ∈ entries read fields →
    ∃ field ∈ fields, o = (field.1,object read field.2)
  | [],_,inside => nomatch inside
  | field :: fields,o,inside => by
    rcases List.mem_cons.mp inside with rfl | later
    · exact ⟨field,List.mem_cons_self,rfl⟩
    · obtain ⟨other,among,same⟩ := entries_mem later
      exact ⟨other,List.mem_cons_of_mem _ among,same⟩

-- What is open holds values that are distinct, and so is the one that is done.
def SoundOpen (read : Int → Int → F) : Open → Prop
  | .list items => ∀ item ∈ items, Distinct (object read item)
  | .dict fields _ => ∀ field ∈ fields, Distinct (object read field.2)

structure Sound (read : Int → Int → F) (s : State) : Prop where
  stack : ∀ top ∈ s.stack, SoundOpen read top
  ended : ∀ value, s.mode = .done value → Distinct (object read value)

theorem list_distinct {items : List Loads.Value} (all : ∀ item ∈ items, Distinct (object read item)) :
    Distinct (object read (.list items.reverse)) := by
  refine .list fun o inside => ?_
  obtain ⟨item,among,rfl⟩ := objects_mem inside
  exact all item (List.mem_reverse.mp among)

theorem dict_distinct {fields : List (Text × Loads.Value)} (all : ∀ field ∈ fields, Distinct (object read field.2))
    (unique : (fields.map Prod.fst).Nodup) : Distinct (object read (.dict fields.reverse)) := by
  refine .dict ?_ fun o inside => ?_
  · rwa [entries_keys,List.map_reverse,List.nodup_reverse]
  · obtain ⟨field,among,rfl⟩ := entries_mem inside
    exact all field (List.mem_reverse.mp among)

theorem complete_sound {value : Loads.Value} {stack : List Open} (own : Distinct (object read value))
    (all : ∀ top ∈ stack, SoundOpen read top) : Sound read (complete value stack) := by
  cases stack with
  | nil => exact ⟨all,fun other same => by cases same; exact own⟩
  | cons top rest =>
    obtain ⟨first,later⟩ := List.forall_mem_cons.mp all
    cases top with
    | list items => exact ⟨List.forall_mem_cons.mpr ⟨List.forall_mem_cons.mpr ⟨own,first⟩,later⟩,nofun⟩
    | dict fields key => exact ⟨List.forall_mem_cons.mpr ⟨List.forall_mem_cons.mpr ⟨own,first⟩,later⟩,nofun⟩

theorem close_sound {fields : List (Text × Loads.Value)} {stack : List Open} (own : ∀ field ∈ fields, Distinct (object read field.2))
    (all : ∀ top ∈ stack, SoundOpen read top) (closed : Loads.closeDictionary fields stack = some t) : Sound read t := by
  unfold Loads.closeDictionary at closed
  split at closed
  · rename_i unique
    cases closed
    exact complete_sound (dict_distinct own unique) all
  · cases closed

theorem start_sound {stack : List Open} (all : ∀ top ∈ stack, SoundOpen read top) (started : Loads.startValue c stack = some t) : Sound read t := by
  unfold Loads.startValue at started
  split at started
  · cases started
    exact ⟨all,nofun⟩
  split at started
  · cases started
    exact ⟨List.forall_mem_cons.mpr ⟨List.forall_mem_nil _,all⟩,nofun⟩
  split at started
  · cases started
    exact ⟨List.forall_mem_cons.mpr ⟨List.forall_mem_nil _,all⟩,nofun⟩
  split at started
  · cases started
  · cases started
    exact ⟨all,nofun⟩

theorem pass_sound (sound : Sound read s) (passed : Loads.pass s c = some t) : Sound read t := by
  unfold Loads.pass at passed
  split at passed
  · cases passed
    exact sound
  split at passed
  · unfold Loads.afterValue at passed
    split at passed
    · rename_i items rest same
      have all := sound.stack
      rw [same] at all
      obtain ⟨first,later⟩ := List.forall_mem_cons.mp all
      split at passed
      · cases passed
        exact ⟨sound.stack,nofun⟩
      split at passed
      · cases passed
        exact complete_sound (list_distinct first) later
      · cases passed
    · rename_i fields key rest same
      have all := sound.stack
      rw [same] at all
      obtain ⟨first,later⟩ := List.forall_mem_cons.mp all
      split at passed
      · cases passed
        exact ⟨sound.stack,nofun⟩
      split at passed
      · exact close_sound first later passed
      · cases passed
    · cases passed
  · cases passed

theorem atom_distinct {literal : Text} {value : Loads.Value} (read' : Loads.atomValue literal = some value) : Distinct (object read value) := by
  unfold Loads.atomValue at read'
  split at read'
  · cases read'
    exact .null
  split at read'
  · cases read'
    exact .bool true
  split at read'
  · cases read'
    exact .bool false
  split at read'
  · split at read'
    · cases read'
      unfold Loads.Number.value
      dsimp only
      split
      · split
        · exact .int _
        · exact .float _
      · exact .float _
    · cases read'
  · cases read'

theorem setKey_sound {stack : List Open} (all : ∀ top ∈ stack, SoundOpen read top) (key : Text) :
    ∀ top ∈ Loads.setKey key stack, SoundOpen read top := by
  unfold Loads.setKey
  split
  · obtain ⟨first,later⟩ := List.forall_mem_cons.mp all
    exact List.forall_mem_cons.mpr ⟨first,later⟩
  · exact all

theorem step_sound (sound : Sound read s) (stepped : step s c = some t) : Sound read t := by
  unfold step at stepped
  split at stepped
  · split at stepped
    · cases stepped
      exact sound
    · exact start_sound sound.stack stepped
  · split at stepped
    · cases stepped
      exact sound
    split at stepped
    · rename_i items rest same
      have all := sound.stack
      rw [same] at all
      obtain ⟨first,later⟩ := List.forall_mem_cons.mp all
      split at stepped
      · cases stepped
        exact complete_sound (list_distinct first) later
      · exact start_sound sound.stack stepped
    · rename_i fields key rest same
      have all := sound.stack
      rw [same] at all
      obtain ⟨first,later⟩ := List.forall_mem_cons.mp all
      split at stepped
      · exact close_sound first later stepped
      split at stepped
      · cases stepped
        exact ⟨sound.stack,nofun⟩
      · cases stepped
    · cases stepped
  · split at stepped
    · cases stepped
      exact sound
    split at stepped
    · cases stepped
      exact ⟨sound.stack,nofun⟩
    · cases stepped
  · split at stepped
    · split at stepped
      · cases stepped
        exact ⟨setKey_sound sound.stack _,nofun⟩
      · cases stepped
        exact complete_sound (.text _) sound.stack
    split at stepped
    · cases stepped
      exact ⟨sound.stack,nofun⟩
    split at stepped
    · cases stepped
    · cases stepped
      exact ⟨sound.stack,nofun⟩
  · split at stepped
    · cases stepped
      exact ⟨sound.stack,nofun⟩
    · obtain ⟨_,_,rfl⟩ := Option.map_eq_some_iff.mp stepped
      exact ⟨sound.stack,nofun⟩
  · split at stepped
    · cases stepped
    split at stepped
    · cases stepped
      exact ⟨sound.stack,nofun⟩
    · cases stepped
      exact ⟨sound.stack,nofun⟩
  · split at stepped
    · cases stepped
      exact sound
    split at stepped
    · cases stepped
      exact ⟨sound.stack,nofun⟩
    · cases stepped
  · split at stepped
    · obtain ⟨value,read',passed⟩ := Option.bind_eq_some_iff.mp stepped
      exact pass_sound (complete_sound (atom_distinct read') sound.stack) passed
    · cases stepped
      exact ⟨sound.stack,nofun⟩
  · exact pass_sound sound stepped
  · exact pass_sound sound stepped

theorem run_sound (sound : Sound read s) (ran : run s text = some t) : Sound read t := by
  induction text generalizing s with
  | nil =>
    cases ran
    exact sound
  | cons c rest ih =>
    obtain ⟨u,stepped,later⟩ := Option.bind_eq_some_iff.mp ran
    exact ih (step_sound sound stepped) later

theorem parse_distinct {value : Loads.Value} (parsed : Loads.parse text = some value) : Distinct (object read value) := by
  obtain ⟨s,ran,ended⟩ := Option.bind_eq_some_iff.mp parsed
  have sound : Sound read s := run_sound ⟨List.forall_mem_nil _,fun _ never => by cases never⟩ ran
  unfold Loads.result at ended
  split at ended
  · rename_i mode _
    cases ended
    exact sound.ended _ mode
  · exact atom_distinct ended
  · cases ended

end Parsed

section Characters
variable {F : Type} {w : Writer F} {read : Int → Int → F} {c : Nat}

theorem quoted_mem (inside : c ∈ quoted t) : c < 128 ∨ c ∈ t := by
  have narrow (d : Nat) (among : c ∈ escape d) : c < 128 ∨ c = d := by
    unfold escape at among
    by_cases short : d < 128
    · have all : ∀ d < 128, ∀ c ∈ escape d, c < 128 := by decide
      exact .inl (all d short c (by unfold escape; exact among))
    · rw [if_neg (by omega),if_neg (by omega),if_neg (by omega),if_neg (by omega),if_neg (by omega),if_neg (by omega),if_neg (by omega),
        if_neg (by omega)] at among
      exact .inr (List.mem_singleton.mp among)
  have quotes : Loads.quote < 128 := by decide
  rcases List.mem_cons.mp inside with rfl | later
  · exact .inl quotes
  rcases List.mem_append.mp later with body | last
  · obtain ⟨d,there,among⟩ := List.mem_flatMap.mp body
    rcases narrow d among with small | rfl
    · exact .inl small
    · exact .inr there
  · exact .inl (List.mem_singleton.mp last ▸ quotes)

theorem join_mem {parts : List Text} (inside : c ∈ Words.join Loads.comma parts) : c < 128 ∨ ∃ part ∈ parts, c ∈ part := by
  cases parts with
  | nil => cases inside
  | cons part parts =>
    rw [join_parts] at inside
    rcases List.mem_append.mp inside with first | later
    · exact .inr ⟨part,List.mem_cons_self,first⟩
    · obtain ⟨other,there,among⟩ := List.mem_flatMap.mp later
      rcases List.mem_cons.mp among with rfl | own
      · exact .inl (by decide)
      · exact .inr ⟨other,List.mem_cons_of_mem _ there,own⟩

theorem enclosed_mem {opening closing : Nat} {parts : List Text} (narrow : opening < 128 ∧ closing < 128) (inside : c ∈ enclosed opening closing parts) :
    c < 128 ∨ ∃ part ∈ parts, c ∈ part := by
  rcases List.mem_cons.mp inside with rfl | later
  · exact .inl narrow.1
  rcases List.mem_append.mp later with body | last
  · exact join_mem body
  · exact .inl (List.mem_singleton.mp last ▸ narrow.2)

-- What is written is ASCII but for what the texts and keys hold.
mutual
theorem dumps_mem (exact' : Exact w read) (written : dumps w level o = some t) (inside : c ∈ t) : c < 128 ∨ Holds c o := by
  match o with
  | .null =>
    cases written
    exact .inl ((by decide : ∀ c ∈ str "null", c < 128) c inside)
  | .bool value =>
    cases written
    exact .inl ((by decide : ∀ value, ∀ c ∈ word value, c < 128) value c inside)
  | .int n => exact .inl ((exact'.integer n t written).narrow c inside)
  | .float x =>
    obtain ⟨_,_,numeral,_⟩ := exact'.float x t written
    exact .inl (numeral.narrow c inside)
  | .text text =>
    cases written
    exact (quoted_mem inside).imp_right .text
  | .list items =>
    rw [dumps] at written
    split at written
    · cases written
    · obtain ⟨parts,made,rfl⟩ := Option.map_eq_some_iff.mp written
      rcases enclosed_mem (by decide) inside with narrow | ⟨part,there,among⟩
      · exact .inl narrow
      · refine (items_mem exact' made there among).imp_right ?_
        rintro ⟨o,member,held⟩
        exact .item member held
  | .dict fields =>
    rw [dumps] at written
    split at written
    · cases written
    · obtain ⟨parts,made,rfl⟩ := Option.map_eq_some_iff.mp written
      rcases enclosed_mem (by decide) inside with narrow | ⟨part,there,among⟩
      · exact .inl narrow
      · exact fields_mem exact' made there among

theorem items_mem (exact' : Exact w read) (written : dumpsItems w level items = some parts) (there : part ∈ parts) (inside : c ∈ part) :
    c < 128 ∨ ∃ o ∈ items, Holds c o := by
  match items with
  | [] =>
    cases written
    cases there
  | item :: items =>
    rw [dumpsItems] at written
    split at written
    · rename_i first rest own later
      cases written
      rcases List.mem_cons.mp there with rfl | after
      · exact (dumps_mem exact' own inside).imp_right fun held => ⟨item,List.mem_cons_self,held⟩
      · refine (items_mem exact' later after inside).imp_right ?_
        rintro ⟨o,member,held⟩
        exact ⟨o,List.mem_cons_of_mem _ member,held⟩
    · cases written

theorem fields_mem (exact' : Exact w read) (written : dumpsFields w level fields = some parts) (there : part ∈ parts) (inside : c ∈ part) :
    c < 128 ∨ Holds c (.dict fields) := by
  match fields with
  | [] =>
    cases written
    cases there
  | (key,item) :: fields =>
    rw [dumpsFields] at written
    split at written
    · rename_i first rest own later
      cases written
      rcases List.mem_cons.mp there with rfl | after
      · rcases List.mem_append.mp inside with front | back
        · exact (quoted_mem front).imp_right fun held => .key (List.mem_cons_self (a := (key,item))) held
        rcases List.mem_cons.mp back with rfl | value
        · exact .inl (by decide)
        · exact (dumps_mem exact' own value).imp_right fun held => .value (List.mem_cons_self (a := (key,item))) held
      · refine (fields_mem exact' later after inside).imp_right fun held => ?_
        cases held with
        | key member own => exact .key (List.mem_cons_of_mem _ member) own
        | value member own => exact .value (List.mem_cons_of_mem _ member) own
    · cases written
end

theorem quoted_line (t : Text) : 10 ∉ quoted t := by
  have apart (d : Nat) : 10 ∉ escape d := by
    by_cases control : d < 32
    · have all : ∀ d < 32, 10 ∉ escape d := by decide
      exact all d control
    · unfold escape
      split_ifs <;> simp [str]
      omega
  intro inside
  rcases List.mem_cons.mp inside with same | later
  · cases same
  rcases List.mem_append.mp later with body | last
  · obtain ⟨d,_,among⟩ := List.mem_flatMap.mp body
    exact apart d among
  · cases List.mem_singleton.mp last

theorem atom_line {t : Text} (inner : ∀ c ∈ t, Loads.endsAtom c = false) : 10 ∉ t := by
  intro inside
  cases inner 10 inside

theorem enclosed_line {opening closing : Nat} {parts : List Text} (apart : opening ≠ 10 ∧ closing ≠ 10) (each : ∀ part ∈ parts, 10 ∉ part) :
    10 ∉ enclosed opening closing parts := by
  intro inside
  rcases List.mem_cons.mp inside with same | later
  · exact apart.1 same.symm
  rcases List.mem_append.mp later with body | last
  · cases parts with
    | nil => cases body
    | cons part parts =>
      rw [join_parts] at body
      rcases List.mem_append.mp body with first | rest
      · exact each part List.mem_cons_self first
      · obtain ⟨other,there,among⟩ := List.mem_flatMap.mp rest
        rcases List.mem_cons.mp among with same | own
        · cases same
        · exact each other (List.mem_cons_of_mem _ there) own
  · exact apart.2 (List.mem_singleton.mp last).symm

mutual
theorem dumps_line (exact' : Exact w read) (written : dumps w level o = some t) : 10 ∉ t := by
  match o with
  | .null =>
    cases written
    decide
  | .bool value =>
    cases written
    exact (by decide : ∀ value, 10 ∉ word value) value
  | .int n => exact atom_line (exact'.integer n t written).inner
  | .float x =>
    obtain ⟨_,_,numeral,_⟩ := exact'.float x t written
    exact atom_line numeral.inner
  | .text text =>
    cases written
    exact quoted_line text
  | .list items =>
    rw [dumps] at written
    split at written
    · cases written
    · obtain ⟨parts,made,rfl⟩ := Option.map_eq_some_iff.mp written
      exact enclosed_line (by decide) (items_line exact' made)
  | .dict fields =>
    rw [dumps] at written
    split at written
    · cases written
    · obtain ⟨parts,made,rfl⟩ := Option.map_eq_some_iff.mp written
      exact enclosed_line (by decide) (fields_line exact' made)

theorem items_line (exact' : Exact w read) (written : dumpsItems w level items = some parts) : ∀ part ∈ parts, 10 ∉ part := by
  match items with
  | [] =>
    cases written
    exact fun _ => nofun
  | item :: items =>
    rw [dumpsItems] at written
    split at written
    · rename_i first rest own later
      cases written
      exact List.forall_mem_cons.mpr ⟨dumps_line exact' own,items_line exact' later⟩
    · cases written

theorem fields_line (exact' : Exact w read) (written : dumpsFields w level fields = some parts) : ∀ part ∈ parts, 10 ∉ part := by
  match fields with
  | [] =>
    cases written
    exact fun _ => nofun
  | (key,item) :: fields =>
    rw [dumpsFields] at written
    split at written
    · rename_i first rest own later
      cases written
      refine List.forall_mem_cons.mpr ⟨?_,fields_line exact' later⟩
      intro inside
      rcases List.mem_append.mp inside with front | back
      · exact quoted_line key front
      rcases List.mem_cons.mp back with same | value
      · cases same
      · exact dumps_line exact' own value
    · cases written
end

end Characters

section Bytes
open Loads (Decoder decodeBytes decodeByte decodeLead decodeTail)

theorem octet (small : n < 256) : n.toUInt8.toNat = n := by
  simp [Nat.toUInt8]
  omega

theorem lead_byte {d : Decoder} (between : d.need = 0) (small : n < 256) : decodeByte d n.toUInt8 = decodeLead d n := by
  rw [decodeByte,if_pos between,octet small]

theorem tail_byte {d : Decoder} (owed : d.need ≠ 0) (low : 128 ≤ n) (high : n < 192) :
    decodeByte d n.toUInt8 = decodeTail d (d.code * 64 + (n - 128)) := by
  rw [decodeByte,if_neg owed,octet (by omega),if_neg (by omega)]

theorem tail_last (out : Text) (code least : Nat) (low : 128 ≤ n) (high : n < 192) (same : code * 64 + (n - 128) = c)
    (fits : ¬ (c < least ∨ 55296 ≤ c ∧ c < 57344 ∨ 1114112 ≤ c)) :
    decodeBytes ⟨out,1,code,least⟩ [n.toUInt8] = some ⟨c :: out,0,code,least⟩ := by
  rw [decodeBytes,tail_byte (by simp) low high,same,decodeTail,if_neg (by simp),if_neg fits]
  rfl

theorem tail_next (out : Text) (owed code least : Nat) (low : 128 ≤ n) (high : n < 192) (same : code * 64 + (n - 128) = m) (rest : List UInt8) :
    decodeBytes ⟨out,owed + 2,code,least⟩ (n.toUInt8 :: rest) = decodeBytes ⟨out,owed + 1,m,least⟩ rest := by
  rw [decodeBytes,tail_byte (by simp) low high,same,decodeTail,if_pos (by simp)]
  rfl

theorem decode_char (encoded : Utf8.encodeChar c = some bytes) (small : c < 1114112) (d : Decoder) (between : d.need = 0) :
    ∃ e, decodeBytes d bytes = some e ∧ e.need = 0 ∧ e.out = c :: d.out := by
  unfold Utf8.encodeChar at encoded
  split_ifs at encoded with solitary one two three
  · cases encoded
    refine ⟨{d with out := c :: d.out},?_,between,rfl⟩
    rw [decodeBytes,lead_byte between (by omega),decodeLead,if_pos one]
    rfl
  all_goals
    simp only [Utf8.surrogate,Bool.and_eq_true,decide_eq_true_eq] at solitary
    cases encoded
  · have lead : decodeLead d (192 + c / 64) = some ⟨d.out,1,c / 64,128⟩ := by
      rw [decodeLead,if_neg (by omega),if_pos (by omega),Nat.add_sub_cancel_left]
    refine ⟨⟨c :: d.out,0,c / 64,128⟩,?_,rfl,rfl⟩
    rw [decodeBytes,lead_byte between (by omega),lead,Option.bind_some]
    exact tail_last _ _ _ (by omega) (by omega) (by omega) (by omega)
  · have lead : decodeLead d (224 + c / 4096) = some ⟨d.out,2,c / 4096,2048⟩ := by
      rw [decodeLead,if_neg (by omega),if_neg (by omega),if_pos (by omega),Nat.add_sub_cancel_left]
    refine ⟨⟨c :: d.out,0,c / 64,2048⟩,?_,rfl,rfl⟩
    rw [decodeBytes,lead_byte between (by omega),lead,Option.bind_some,
      tail_next _ 0 _ _ (m := c / 64) (by omega) (by omega) (by omega)]
    exact tail_last _ _ _ (by omega) (by omega) (by omega) (by omega)
  · have lead : decodeLead d (240 + c / 262144) = some ⟨d.out,3,c / 262144,65536⟩ := by
      rw [decodeLead,if_neg (by omega),if_neg (by omega),if_neg (by omega),if_pos (by omega),Nat.add_sub_cancel_left]
    refine ⟨⟨c :: d.out,0,c / 64,65536⟩,?_,rfl,rfl⟩
    rw [decodeBytes,lead_byte between (by omega),lead,Option.bind_some,
      tail_next _ 1 _ _ (m := c / 4096) (by omega) (by omega) (by omega),
      tail_next _ 0 _ _ (m := c / 64) (by omega) (by omega) (by omega)]
    exact tail_last _ _ _ (by omega) (by omega) (by omega) (by omega)

theorem decode_chars (encoded : Utf8.encode t = some bytes) (small : ∀ c ∈ t, c < 1114112) (d : Decoder) (between : d.need = 0) :
    ∃ e, decodeBytes d bytes = some e ∧ e.need = 0 ∧ e.out = t.reverse ++ d.out := by
  induction t generalizing bytes d with
  | nil =>
    cases encoded
    exact ⟨d,rfl,between,rfl⟩
  | cons c rest ih =>
    obtain ⟨first,own,later⟩ := Option.bind_eq_some_iff.mp encoded
    obtain ⟨second,more,rfl⟩ := Option.map_eq_some_iff.mp later
    obtain ⟨e,decoded,settled,out⟩ := decode_char own (small c List.mem_cons_self) d between
    obtain ⟨f,rested,done,whole⟩ := ih more (fun d inside => small d (List.mem_cons_of_mem _ inside)) e settled
    refine ⟨f,?_,done,?_⟩
    · rw [Loads.decodeBytes_append,decoded]
      exact rested
    · rw [whole,out,List.reverse_cons,List.append_assoc]
      rfl

theorem decode_encoded (encoded : Utf8.encode t = some bytes) (small : ∀ c ∈ t, c < 1114112) : Loads.decode bytes = some t := by
  obtain ⟨e,decoded,done,out⟩ := decode_chars encoded small ⟨[],0,0,0⟩ rfl
  rw [Loads.decode,decoded,Option.bind_some,if_pos done,out,List.append_nil,List.reverse_reverse]

section Line
variable {F : Type} {w : Writer F} {read : Int → Int → F}

def Points (o : Object F) : Prop := ∀ c, Holds c o → c < 1114112

theorem text_points {t : Text} (all : ∀ c ∈ t, c < 1114112) : Points (Object.text t : Object F) := by
  intro c held
  cases held with
  | text inside => exact all c inside

theorem int_points (n : Int) : Points (Object.int n : Object F) := nofun

theorem list_points {items : List (Object F)} (all : ∀ item ∈ items, Points item) : Points (.list items) := by
  intro c held
  cases held with
  | item inside own => exact all _ inside c own

theorem dict_points {fields : List (Text × Object F)} (all : ∀ field ∈ fields, (∀ c ∈ field.1, c < 1114112) ∧ Points field.2) :
    Points (.dict fields) := by
  intro c held
  cases held with
  | key inside own => exact (all _ inside).1 c own
  | value inside own => exact (all _ inside).2 c own

-- A mapping that is written and encoded is one line, and whoever reads the line reads the mapping.
theorem dict_line (exact' : Exact w read) (distinct : Distinct (.dict fields)) (points : Points (.dict fields))
    (written : dumps w level (.dict fields) = some t) (encoded : Utf8.encode t = some row) :
    (10 : UInt8) ∉ row ∧ ∃ values, Loads.parseBytes row = some (.dict values) ∧ entries read values = fields := by
  have small : ∀ c ∈ t, c < 1114112 := by
    intro c inside
    rcases dumps_mem exact' written inside with narrow | held
    · omega
    · exact points c held
  refine ⟨?_,?_⟩
  · intro inside
    exact dumps_line exact' written (Utf8.encode_sign small encoded inside (by decide))
  · rw [Loads.parseBytes,decode_encoded encoded small]
    exact dict_written exact' distinct written

end Line
end Bytes
section Decimals
open Loads (isDigit scanNumber digitsValue)

def decimal (n : Int) : Text := (Digits.signed n).map Char.toNat

theorem digits_value (k : Nat) : digitsValue ((Digits.digits k).map Char.toNat) = k := by
  have same : digitsValue ((Digits.digits k).map Char.toNat) = Nat.ofDigitChars 10 (Digits.digits k) 0 := by
    rw [digitsValue,List.foldl_map]
    rfl
  rw [same,Digits.digits_value]

theorem digits_isDigit (k : Nat) : ∀ c ∈ (Digits.digits k).map Char.toNat, isDigit c = true := by
  intro c inside
  obtain ⟨d,among,rfl⟩ := List.mem_map.mp inside
  have digit := Digits.digits_digit among
  simpa [Char.isDigit,isDigit,UInt32.le_iff_toNat_le] using digit

theorem digit_inner (digit : isDigit c = true) : Loads.endsAtom c = false ∧ c < 128 := by
  have bounds : 48 ≤ c ∧ c ≤ 57 := by simpa [isDigit] using digit
  have all : ∀ c < 58, 48 ≤ c → Loads.endsAtom c = false := by decide
  exact ⟨all c (by omega) bounds.1,by omega⟩

theorem scan_digits (digits : ∀ d ∈ c :: rest, isDigit d = true) (lead : c = 48 → rest = []) :
    scanNumber (c :: rest) = some ⟨false,c :: rest,[],none,[]⟩ ∧ scanNumber (45 :: c :: rest) = some ⟨true,c :: rest,[],none,[]⟩ := by
  have first := digits c List.mem_cons_self
  have unsigned : c ≠ 45 := by
    rintro rfl
    cases first
  have all : rest.takeWhile isDigit = rest := List.takeWhile_eq_self_iff.mpr fun d inside => digits d (List.mem_cons_of_mem _ inside)
  by_cases zero : c = 48
  · rw [lead zero,zero]
    exact ⟨rfl,rfl⟩
  · constructor
    · simp [scanNumber,unsigned,first,zero,all,Loads.scanFraction,Loads.scanExponent]
    · simp [scanNumber,first,zero,all,Loads.scanFraction,Loads.scanExponent]

theorem atom_number (first : c ≠ 110 ∧ c ≠ 116 ∧ c ≠ 102) (scanned : scanNumber (c :: rest) = some number) (whole : number.rest = []) :
    Loads.atomValue (c :: rest) = some number.value := by
  obtain ⟨n,t,f⟩ := first
  have other (d : Nat) (more : Text) (apart : c ≠ d) : ¬ c :: rest = d :: more := fun same => apart (List.cons.inj same).1
  have null : c :: rest ≠ str "null" := other _ _ n
  have yes : c :: rest ≠ str "true" := other _ _ t
  have no : c :: rest ≠ str "false" := other _ _ f
  unfold Loads.atomValue
  rw [if_neg null,if_neg yes,if_neg no,scanned]
  exact if_pos whole

theorem number_whole (negative : Bool) (whole : Text) : (⟨negative,whole,[],none,[]⟩ : Loads.Number).value =
    .int (if negative then -(digitsValue whole : Int) else digitsValue whole) := by
  simp only [Loads.Number.value,List.append_nil,if_true]

theorem decimal_numeral (n : Int) : Numeral (decimal n) (.int n) := by
  obtain ⟨c,rest,shape⟩ := List.exists_cons_of_ne_nil (Digits.digits_nonempty n.natAbs)
  have all := digits_isDigit n.natAbs
  have value := digits_value n.natAbs
  rw [shape,List.map_cons] at all value
  have lead : c.toNat = 48 → rest.map Char.toNat = [] := by
    intro zero
    by_contra more
    refine Digits.digits_canonical n.natAbs ⟨?_,?_⟩
    · rw [shape]
      exact congrArg some (Char.toNat_inj.mp zero)
    · rw [shape]
      cases rest with
      | nil => exact absurd rfl more
      | cons d rest => simp
  obtain ⟨plain,minus⟩ := scan_digits all lead
  have inner : ∀ d ∈ decimal n, Loads.endsAtom d = false ∧ d < 128 := by
    intro d inside
    unfold decimal at inside
    rw [Digits.signed_split,shape] at inside
    split at inside
    · exact digit_inner (all d inside)
    · rcases List.mem_cons.mp inside with rfl | later
      · exact ⟨rfl,by decide⟩
      · exact digit_inner (all d later)
  refine ⟨fun d inside => (inner d inside).1,fun d inside => (inner d inside).2,?_⟩
  unfold decimal
  rw [Digits.signed_split,shape]
  split
  · rename_i natural
    have digit : isDigit c.toNat = true := all _ List.mem_cons_self
    have bounds : 48 ≤ c.toNat ∧ c.toNat ≤ 57 := by simpa [isDigit] using digit
    have same : (n.natAbs : Int) = n := Int.natAbs_of_nonneg natural
    rw [List.map_cons,atom_number (by omega) plain rfl,number_whole,value]
    exact congrArg (fun m => some (Loads.Value.int m)) same
  · rename_i negative
    have same : -(n.natAbs : Int) = n := by omega
    have dash : '-'.toNat = 45 := rfl
    rw [List.map_cons,List.map_cons,dash,atom_number (by decide) minus rfl,number_whole,value]
    exact congrArg (fun m => some (Loads.Value.int m)) same
end Decimals

end AgentSideCar.Dumps
