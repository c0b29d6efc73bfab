import AgentSideCar.Audit.Record

namespace AgentSideCar.Audit
open Json (Scalar Fields)

theorem lowerAlpha_alphanum (fits : lowerAlpha c = true) : c.isAlphanum = true := by
  have lower : c.isLower = true := by simpa [lowerAlpha,Json.lower_between,Char.le_def] using fits
  simp [Json.alphanum_cases,lower]

theorem lowerAlpha_plain (fits : lowerAlpha c = true) : Json.plain c = true :=
  Json.alphanum_plain (lowerAlpha_alphanum fits)

theorem digit_plain (fits : c.isDigit = true) : Json.plain c = true :=
  Json.alphanum_plain (by simp [Char.isAlphanum,fits])

theorem requestIdRe_plain (fits : requestIdRe s = true) : Json.Plain s := by
  refine pattern_plain (fun c => Json.alphanum_plain) (fun c inside => ?_) fits
  simp only [Bool.or_eq_true,decide_eq_true_eq] at inside
  rcases inside with (((inside | rfl) | rfl) | rfl) | rfl
  · exact Json.alphanum_plain inside
  all_goals decide

theorem basenameRe_plain (fits : basenameRe s = true) : Json.Plain s := by
  refine pattern_plain (fun c => Json.alphanum_plain) (fun c inside => ?_) fits
  simp only [Bool.or_eq_true,decide_eq_true_eq] at inside
  rcases inside with (((inside | rfl) | rfl) | rfl) | rfl
  · exact Json.alphanum_plain inside
  all_goals decide

theorem agentRe_plain (fits : agentRe s = true) : Json.Plain s := by
  refine pattern_plain (fun c => lowerAlpha_plain) (fun c inside => ?_) fits
  simp only [Bool.or_eq_true,decide_eq_true_eq] at inside
  rcases inside with (inside | inside) | rfl
  · exact lowerAlpha_plain inside
  · exact digit_plain inside
  · decide

theorem errorRe_plain (fits : errorRe s = true) : Json.Plain s := by
  refine pattern_plain (fun c => lowerAlpha_plain) (fun c inside => ?_) fits
  simp only [Bool.or_eq_true,decide_eq_true_eq] at inside
  rcases inside with (inside | inside) | rfl
  · exact lowerAlpha_plain inside
  · exact digit_plain inside
  · decide

theorem hashRe_plain (fits : hashRe s = true) : Json.Plain s := by
  intro c inside
  simp only [hashRe,Bool.and_eq_true,List.all_eq_true] at fits
  have := fits.2 c inside
  simp only [Bool.or_eq_true,Bool.and_eq_true,decide_eq_true_eq] at this
  rcases this with digit | hex
  · exact digit_plain digit
  · refine lowerAlpha_plain ?_
    simp only [lowerAlpha,Bool.and_eq_true,decide_eq_true_eq]
    exact ⟨hex.1,Char.le_trans hex.2 (by decide)⟩

theorem epochRe_plain (fits : epochRe s = true) : Json.Plain s := by
  intro c inside
  unfold epochRe at fits
  split at fits
  · rename_i rest same
    rw [same] at inside
    simp only [Bool.and_eq_true,List.all_eq_true] at fits
    rcases List.mem_cons.mp inside with rfl | inside
    · decide
    rcases List.mem_cons.mp inside with rfl | inside
    · decide
    have := fits.2 c inside
    simp only [Bool.or_eq_true,decide_eq_true_eq] at this
    rcases this with (this | rfl) | rfl
    · exact Json.alphanum_plain this
    · decide
    · decide
  · cases fits

theorem listed_plain {names : List String} (inside : s ∈ names)
    (checked : ∀ s ∈ names, s.toList.all Json.plain = true) : Json.Plain s :=
  List.all_eq_true.mp (checked s inside)

theorem keys_plain (r : Record) : ∀ field ∈ r.fields, Json.Plain field.1 := by
  have checked : ∀ key ∈ r.fields.map Prod.fst, key.toList.all Json.plain = true := by
    cases settled : r.terminal <;> simp only [Record.fields,settled,List.map_cons,List.map_nil] <;> decide
  exact fun field inside => List.all_eq_true.mp (checked _ (List.mem_map_of_mem inside))

theorem valid_plain (fits : Record.valid r = true) : ∀ field ∈ r.fields, field.2.Plain := by
  simp only [Record.valid,Bool.and_eq_true,decide_eq_true_eq] at fits
  obtain ⟨⟨⟨⟨⟨⟨⟨⟨time,epoch⟩,agent⟩,target⟩,request⟩,executable⟩,mode⟩,id⟩,terminal⟩ := fits
  have stamp : r.timestamp.Plain := by
    cases h : r.timestamp with
    | text s => rw [h] at time; cases time
    | _ => trivial
  have modePlain : Json.Plain r.confirmationMode := listed_plain (List.mem_singleton.mpr mode) (by decide)
  cases settled : r.terminal with
  | none =>
    have pendingPlain : Json.Plain "pending" := listed_plain (List.mem_singleton.mpr rfl) (by decide)
    simp only [Record.fields,settled,List.forall_mem_cons]
    exact ⟨agentRe_plain agent,modePlain,basenameRe_plain executable,epochRe_plain epoch,pendingPlain,
      hashRe_plain request,requestIdRe_plain id,trivial,hashRe_plain target,stamp,List.forall_mem_nil _⟩
  | some t =>
    simp only [settled,Option.all_some,Terminal.valid,Bool.and_eq_true,decide_eq_true_eq] at terminal
    obtain ⟨⟨⟨⟨outcome,delivery⟩,_⟩,error⟩,_⟩ := terminal
    have errorPlain : (optionText t.error).Plain := by
      cases h : t.error with
      | none => trivial
      | some e => rw [h] at error; exact errorRe_plain error
    have returnsPlain : (optionInt t.returncode).Plain := by cases t.returncode <;> trivial
    simp only [Record.fields,settled,List.forall_mem_cons]
    exact ⟨agentRe_plain agent,modePlain,listed_plain delivery (by decide),errorPlain,basenameRe_plain executable,
      epochRe_plain epoch,listed_plain outcome (by decide),hashRe_plain request,requestIdRe_plain id,returnsPlain,
      trivial,hashRe_plain target,stamp,List.forall_mem_nil _⟩

theorem fields_plain (fits : Record.valid r = true) : ∀ field ∈ r.fields, Json.PlainField field :=
  fun field inside => ⟨keys_plain r field inside,valid_plain fits field inside⟩

def line (r : Record) : Text := Json.dumps r.fields ++ ['\n']
def payload (records : List Record) : Text := records.flatMap line

-- A record the store has written: valid, and within the line limit.
structure Written (r : Record) : Prop where
  valid : r.valid = true
  short : (line r).length ≤ maxAuditLineBytes

theorem encoded_iff : encodedRecord r = .ok text ↔ text = line r ∧ (line r).length ≤ maxAuditLineBytes := by
  unfold encodedRecord
  simp only [line]
  split
  · rename_i short; simp only [Except.ok.injEq,short,and_true]; exact eq_comm
  · rename_i long; simp only [long,and_false,reduceCtorEq]

theorem keys_distinct (r : Record) : (r.fields.map Prod.fst).Nodup := by
  cases settled : r.terminal <;> simp [Record.fields,settled]

theorem fields_nonempty (r : Record) : r.fields ≠ [] := by
  cases settled : r.terminal <;> simp [Record.fields,settled]

theorem parseLine_dumps (written : Written r) : parseLine (Json.dumps r.fields) = .ok r := by
  have short := written.short
  simp only [line,List.length_append,List.length_singleton] at short
  rw [parseLine,if_neg (by simp only [Json.dumps,not_or]; exact ⟨List.cons_ne_nil _ _,by simp [Json.dumps] at short ⊢; omega⟩),
    Json.loads_dumps _ (fields_nonempty r) (fields_plain written.valid) (keys_distinct r)]
  simp only [validateRecord_fields,written.valid,if_true]

theorem universal_clean (clean : '\r' ∉ s) : universal s = s := by
  induction s with
  | nil => rfl
  | cons c s ih =>
    have apart : c ≠ '\r' := fun same => clean (same ▸ List.mem_cons_self)
    have later := ih fun inside => clean (List.mem_cons_of_mem _ inside)
    rw [universal,later]
    · rintro _ rfl; exact absurd rfl apart
    · rintro rfl; exact absurd rfl apart

theorem dumps_clean (written : Written r) : ∀ c ∈ Json.dumps r.fields, c ≠ '\n' ∧ c ≠ '\r' :=
  Json.dumps_line _ (fields_plain written.valid)

theorem payload_clean (written : ∀ r ∈ records, Written r) : '\r' ∉ payload records := by
  intro inside
  obtain ⟨r,present,inside⟩ := List.mem_flatMap.mp inside
  rcases List.mem_append.mp inside with inside | inside
  · exact (dumps_clean (written r present) _ inside).2 rfl
  · simp at inside

theorem lines_payload (written : ∀ r ∈ records, Written r) :
    Lines.lines '\n' (payload records) = records.map fun r => Json.dumps r.fields := by
  induction records with
  | nil => rfl
  | cons r records ih =>
    have clean : '\n' ∉ Json.dumps r.fields := fun inside => (dumps_clean (written r List.mem_cons_self) _ inside).1 rfl
    have later := ih fun s inside => written s (List.mem_cons_of_mem _ inside)
    rw [show payload (r :: records) = Json.dumps r.fields ++ '\n' :: payload records by simp [payload,line],
      Lines.lines,Lines.feed_line _ _ _ clean,List.map_cons,← later]
    rfl

theorem payload_append : payload (first ++ second) = payload first ++ payload second := List.flatMap_append

theorem payload_last (some_line : records ≠ []) : (payload records).getLast? = some '\n' := by
  obtain ⟨early,r,rfl⟩ := (List.eq_nil_or_concat records).resolve_left some_line
  simp [payload,line]

theorem payload_empty : payload records = [] ↔ records = [] := by
  constructor
  · intro empty
    by_contra some_line
    have := payload_last some_line
    rw [empty] at this
    cases this
  · rintro rfl; rfl

theorem mapM_ok {bs : List β} {f : α → Except ε β} {g : β → α} (inverse : ∀ b ∈ bs, f (g b) = .ok b) :
    (bs.map g).mapM f = .ok bs := by
  induction bs with
  | nil => rfl
  | cons b bs ih =>
    rw [List.map_cons,List.mapM_cons,inverse b List.mem_cons_self,
      ih fun c inside => inverse c (List.mem_cons_of_mem _ inside)]
    rfl

theorem parseFile_payload (written : ∀ r ∈ records, Written r) : parseFile (payload records) = .ok records := by
  rcases List.eq_nil_or_concat records with rfl | ⟨early,last,rfl⟩
  · rfl
  · have some_line : early.concat last ≠ [] := by simp
    rw [parseFile,if_neg (mt payload_empty.mp some_line),if_neg (not_not.mpr (payload_last some_line)),
      universal_clean (payload_clean written),lines_payload written]
    exact mapM_ok fun r present => parseLine_dumps (written r present)

theorem payload_torn (written : ∀ r ∈ records, Written r) (torn : part <+: payload records) :
    (∃ count, part = payload (records.take count)) ∨ (part ≠ [] ∧ part.getLast? ≠ some '\n') := by
  induction records generalizing part with
  | nil => exact .inl ⟨0,List.prefix_nil.mp torn⟩
  | cons r records ih =>
    have whole : line r <+: payload (r :: records) := List.prefix_append _ _
    rcases List.prefix_or_prefix_of_prefix torn whole with within | ⟨rest,rfl⟩
    · rcases List.prefix_concat_iff.mp within with rfl | ⟨rest,cut⟩
      · exact .inl ⟨1,by simp [payload,line]⟩
      · rcases List.eq_nil_or_concat part with rfl | ⟨early,c,rfl⟩
        · exact .inl ⟨0,rfl⟩
        · refine .inr ⟨by simp,fun last => ?_⟩
          have inside : c ∈ Json.dumps r.fields := by rw [← cut]; simp
          simp only [List.concat_eq_append,List.getLast?_concat,Option.some.injEq] at last
          exact (dumps_clean (written r List.mem_cons_self) c inside).1 last
    · have later : rest <+: payload records := (List.prefix_append_right_inj (line r)).mp torn
      rcases ih (fun s inside => written s (List.mem_cons_of_mem _ inside)) later with ⟨count,rfl⟩ | ⟨some_left,last⟩
      · exact .inl ⟨count + 1,rfl⟩
      · exact .inr ⟨by simp [some_left],by rwa [List.getLast?_append_of_ne_nil _ some_left]⟩

theorem parseFile_torn (cut : part ≠ [] ∧ part.getLast? ≠ some '\n') : parseFile part = .error .auditCorrupt := by
  rw [parseFile,if_neg cut.1,if_pos cut.2]

end AgentSideCar.Audit
