import AgentSideCar.Send.LiveOwner

namespace AgentSideCar.LiveOwner
variable {u : Unicode} {h : Host} {P : Process}

abbrev Solid (t : Text) : Prop := ∀ c ∈ t, isSpace c = false
abbrev Blank (t : Text) : Prop := ∀ c ∈ t, isSpace c = true
abbrev Unbroken (t : Text) : Prop := ∀ c ∈ t, isBreak c = false

theorem break_space (breaks : isBreak p = true) : isSpace p = true := by
  simp only [isBreak,isSpace,Bool.or_eq_true,Bool.and_eq_true,decide_eq_true_eq] at breaks ⊢
  omega

theorem solid_unbroken (solid : Solid t) : Unbroken t := fun c inside => by
  rw [Bool.eq_false_iff]
  intro breaks
  have := solid c inside
  rw [break_space breaks] at this
  cases this

theorem digit_solid (digit : c.isDigit = true) : isSpace (.char c) = false := by
  have low : 48 ≤ code (.char c) ∧ code (.char c) ≤ 57 := by
    change 48 ≤ c.toNat ∧ c.toNat ≤ 57
    simpa [Char.isDigit,UInt32.le_iff_toNat_le] using digit
  rw [Bool.eq_false_iff]
  intro spaced
  simp only [isSpace,Bool.or_eq_true,Bool.and_eq_true,decide_eq_true_eq] at spaced
  omega

def printedNat (n : Nat) : Text := (Digits.digits n).map .char

theorem printedNat_solid (n : Nat) : Solid (printedNat n) := fun c inside => by
  obtain ⟨digit,among,rfl⟩ := List.mem_map.mp inside
  exact digit_solid (Digits.digits_digit among)

theorem printedNat_some (n : Nat) : printedNat n ≠ [] := by
  simpa [printedNat] using Digits.digits_nonempty n

theorem blank_spaces (n : Nat) : Blank (spaces n) := fun c inside => by
  rw [List.eq_of_mem_replicate inside]
  rfl

theorem spaces_unbroken (n : Nat) : Unbroken (spaces n) := fun c inside => by
  rw [List.eq_of_mem_replicate inside]
  rfl

theorem figures_digits (u : Unicode) (digits : List Char) (all : ∀ c ∈ digits, c.isDigit = true) (value : Nat) (after : Bool)
    (some' : after = true ∨ digits ≠ []) :
    figures u value after (digits.map .char) = some (Nat.ofDigitChars 10 digits value) := by
  induction digits generalizing value after with
  | nil =>
    rw [some'.resolve_right fun absent => absent rfl]
    rfl
  | cons c rest ih =>
    have digit := all c List.mem_cons_self
    have plain : (Point.char c = .char '_') = False := by
      simp only [Point.char.injEq,eq_iff_iff,iff_false]
      rintro rfl
      cases digit
    rw [List.map_cons,figures,if_neg (by simp [plain]),decimal,if_pos digit]
    simp only
    rw [ih (fun d inside => all d (List.mem_cons_of_mem _ inside)) _ true (.inl rfl)]
    rfl

theorem int_digits (u : Unicode) (n : Nat) (small : n < 2 ^ 31) : int u (printedNat n) = some (n : Int) := by
  have short : ((printedNat n).filter fun p => (decimal u p).isSome).length ≤ maxDigits := by
    refine (List.length_filter_le _ _).trans ?_
    rw [printedNat,List.length_map]
    have ten : (Digits.digits n).length ≤ 10 :=
      (Nat.length_toDigits_le_iff (by decide) (by decide)).mpr (small.trans_le (by decide))
    exact ten.trans (by decide)
  obtain ⟨c,rest,shape⟩ := List.exists_cons_of_ne_nil (Digits.digits_nonempty n)
  have digit := Digits.digits_digit (shape ▸ List.mem_cons_self : c ∈ Digits.digits n)
  have minus : c ≠ '-' := by rintro rfl; cases digit
  have plus : c ≠ '+' := by rintro rfl; cases digit
  have body : printedNat n = .char c :: rest.map .char := by rw [printedNat,shape,List.map_cons]
  have value := figures_digits u (Digits.digits n) (fun c inside => Digits.digits_digit inside) 0 false
    (.inr (Digits.digits_nonempty n))
  rw [Digits.digits_value] at value
  change figures u 0 false (printedNat n) = some n at value
  rw [body] at short value ⊢
  unfold int
  split
  · rename_i same
    exact absurd (Point.char.inj (List.cons.inj same).1) minus
  · rename_i same
    exact absurd (Point.char.inj (List.cons.inj same).1) plus
  · rw [if_neg (by omega),value]
    simp [minus]

theorem spaces_end (n : Nat) (rest : Text) : Words.Ends isSpace (spaces (n + 1) ++ rest) := by
  intro c first
  rw [spaces,List.replicate_succ] at first
  cases first
  rfl

def lineOf (lead gap indent : Nat) (pid pgid : Nat) (word rest : Text) : Text :=
  spaces lead ++ (printedNat pid ++ (spaces (gap + 1) ++ (printedNat pgid ++ (spaces (indent + 1) ++ (word ++ rest)))))

theorem readRow_line (h : Host) (lead gap indent pid pgid : Nat) (word rest : Text)
    (real : 0 < pid ∧ 0 < pgid ∧ pid < 2 ^ 31 ∧ pgid < 2 ^ 31) (some' : word ≠ []) (solid : Solid word)
    (ends : Words.Ends isSpace rest) : h.readRow (lineOf lead gap indent pid pgid word rest) =
      some (some ⟨pid,pgid,word,if strip rest = [] then word else strip rest⟩) := by
  have stripped : strip (lineOf lead gap indent pid pgid word rest) = printedNat pid ++ (spaces (gap + 1) ++
      (printedNat pgid ++ (spaces (indent + 1) ++ (word ++ rest.rdropWhile isSpace)))) := by
    obtain ⟨c,digits,shape⟩ := List.exists_cons_of_ne_nil (printedNat_some pid)
    have first := printedNat_solid pid c (shape ▸ List.mem_cons_self)
    rw [strip,Words.strip,lineOf,List.dropWhile_append_of_pos (blank_spaces lead),shape,List.cons_append,
      List.dropWhile_cons_of_neg (by simp [first]),← List.cons_append,← shape]
    have tail := Words.rdropWhile_word (printedNat pid ++ (spaces (gap + 1) ++ (printedNat pgid ++ spaces (indent + 1))))
      rest some' solid
    simpa only [List.append_assoc] using tail
  have tail : (rest.rdropWhile isSpace).dropWhile isSpace = strip rest := (Words.strip_turned rest).symm
  have parts : Words.split isSpace 3 (strip (lineOf lead gap indent pid pgid word rest)) =
      printedNat pid :: printedNat pgid :: word :: Words.split isSpace 0 (rest.rdropWhile isSpace) := by
    rw [stripped,← List.nil_append (printedNat pid ++ _),
      Words.split_word 2 (by simp) (printedNat_some pid) (printedNat_solid pid) (spaces_end gap _),
      Words.split_word 1 (blank_spaces _) (printedNat_some pgid) (printedNat_solid pgid) (spaces_end indent _),
      Words.split_word 0 (blank_spaces _) some' solid (Words.ends_begins (List.rdropWhile_prefix _ _) ends)]
  rw [Host.readRow]
  simp only
  rw [if_neg (by rw [stripped]; simp [printedNat_some]),parts]
  simp only [int_digits _ _ real.2.2.1,int_digits _ _ real.2.2.2]
  rw [Words.split,tail]
  have positive : pid ≠ 0 ∧ pgid ≠ 0 := by omega
  cases strip rest with
  | nil => simp [positive,some']
  | cons c more => simp [positive,some']

-- Where a process ends, the next line of the table begins: the first line of each one's
-- text is a line of the table, whatever stands before and after it.
theorem printed_line (live : P ∈ h.processes) : P.printed.takeWhile (!isBreak ·) ∈ splitlines h.stdout := by
  obtain ⟨before,after,shape⟩ := List.append_of_mem live
  have whole : h.stdout = (before.flatMap fun p => p.printed ++ [feed]) ++
      (P.printed ++ feed :: after.flatMap fun p => p.printed ++ [feed]) := by
    rw [Host.stdout,shape,List.flatMap_append,List.flatMap_cons]
    simp
  obtain ⟨more,first⟩ := @Words.lines_first _ isBreak _ (.char '\r') feed rfl [] P.printed
    (after.flatMap fun p => p.printed ++ [feed])
  rw [splitlines,whole]
  rcases List.eq_nil_or_concat' before with rfl | ⟨early,last,rfl⟩
  · rw [List.flatMap_nil,List.nil_append,first]
    exact List.mem_cons_self
  · have cut : ((early ++ [last]).flatMap fun p => p.printed ++ [feed]) ++
        (P.printed ++ feed :: after.flatMap fun p => p.printed ++ [feed]) =
        (early.flatMap (fun p => p.printed ++ [feed]) ++ last.printed) ++
          feed :: (P.printed ++ feed :: after.flatMap fun p => p.printed ++ [feed]) := by simp
    rw [cut,Words.lines_append rfl (by decide) false [] _ _ nofun,first]
    exact List.mem_append_right _ List.mem_cons_self

theorem readRows_mem (h : Host) (lines : List Text) (p : Progress) (read : h.readRows lines p = some (rows,after))
    (inside : line ∈ lines) (row : h.readRow line = some (some r)) : r ∈ rows := by
  induction lines generalizing p rows after with
  | nil => cases inside
  | cons first rest ih =>
    simp only [Host.readRows,Option.bind_eq_bind,Option.bind_eq_some_iff] at read
    obtain ⟨q,_,found,own,⟨later,_⟩,others,same⟩ := read
    cases same
    rcases List.mem_cons.mp inside with rfl | inside
    · cases row.symm.trans own
      exact List.mem_cons_self
    · exact List.mem_append_right _ (ih q others inside)

theorem first_line (lead gap indent pid pgid : Nat) {word : Text} (rest : Text) (unbroken : Unbroken word) :
    (lineOf lead gap indent pid pgid word rest).takeWhile (!isBreak ·) =
      lineOf lead gap indent pid pgid word (rest.takeWhile (!isBreak ·)) := by
  have through : ∀ (t late : Text), Unbroken t → (t ++ late).takeWhile (!isBreak ·) = t ++ late.takeWhile (!isBreak ·) :=
    fun t late clean => List.takeWhile_append_of_pos fun c inside => by simp [clean c inside]
  rw [lineOf,lineOf,through _ _ (spaces_unbroken _),through _ _ (solid_unbroken (printedNat_solid _)),
    through _ _ (spaces_unbroken _),through _ _ (solid_unbroken (printedNat_solid _)),through _ _ (spaces_unbroken _),
    through _ _ unbroken]

theorem process_row (live : P ∈ h.processes) (read : h.readRows (splitlines h.stdout) p = some (rows,after))
    (word rest : Text) (shape : P.comm ++ (spaces (P.pad + 1) ++ joined P.args) = word ++ rest) (some' : word ≠ [])
    (solid : Solid word) (ends : Words.Ends isSpace rest) :
    (⟨P.pid,P.pgid,word,if strip (rest.takeWhile (!isBreak ·)) = [] then word else strip (rest.takeWhile (!isBreak ·))⟩ : Row) ∈
      rows := by
  refine readRows_mem h _ _ read (printed_line live) ?_
  have printed : P.printed = lineOf P.lead P.gap P.indent P.pid P.pgid word rest := by
    rw [Process.printed,lineOf,printedNat,printedNat,← shape]
  rw [printed,first_line _ _ _ _ _ _ (solid_unbroken solid)]
  exact readRow_line h _ _ _ _ _ word _ P.real some' solid (Words.ends_begins (List.takeWhile_prefix _) ends)

theorem basename_shape (t : Text) : ∃ pre, t = pre ++ basename t ∧ (pre = [] ∨ ∃ early, pre = early ++ [slash]) := by
  refine ⟨t.rdropWhile (· ≠ slash),(List.rdropWhile_append_rtakeWhile ..).symm,?_⟩
  rcases List.eq_nil_or_concat' (t.rdropWhile (· ≠ slash)) with none' | ⟨early,last,shape⟩
  · exact .inl none'
  · have stops : last = slash := by
      by_contra apart
      have again := List.rdropWhile_idempotent (· ≠ slash) t
      rw [shape,List.rdropWhile_concat_pos _ _ _ (by simpa using apart)] at again
      have shorter := (List.rdropWhile_prefix (· ≠ slash) early).length_le
      rw [again] at shorter
      simp only [List.length_append,List.length_singleton] at shorter
      omega
    exact .inr ⟨early,by rw [shape,stops]⟩

theorem basename_word (word : Text) (plain : ∀ c ∈ word, c ≠ slash) : basename word = word :=
  List.rtakeWhile_eq_self_iff.mpr fun c inside => by simpa using plain c inside

theorem basename_after (early word : Text) (plain : ∀ c ∈ word, c ≠ slash) : basename (early ++ [slash] ++ word) = word := by
  induction word using List.reverseRecOn with
  | nil => rw [List.append_nil,basename,List.rtakeWhile_concat_neg _ _ _ (by simp)]
  | append_singleton word c ih =>
    rw [← List.append_assoc,basename,List.rtakeWhile_concat_pos _ _ _ (by simpa using plain c (by simp)),← basename,
      ih fun d inside => plain d (List.mem_append_left _ inside)]

end AgentSideCar.LiveOwner
