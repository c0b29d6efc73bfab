import AgentSideCar.Send.LiveOwnerRows

namespace AgentSideCar.LiveOwner
variable {h : Host} {P : Process} {project executable : Identity} {excluded : Option Int}

theorem cwd_here (live : P ∈ h.processes) (here : P.cwd = project) :
    h.strictCandidateCwd P.pid = none ∧ P.opens = false ∨ h.strictCandidateCwd P.pid = some project ∧ P.opens = true := by
  have found : h.processes.find? (fun p => decide ((p.pid : Int) = P.pid)) = some P := by
    have distinct := h.distinct
    generalize h.processes = processes at live distinct
    induction processes with
    | nil => cases live
    | cons first rest ih =>
      obtain ⟨fresh,distinct⟩ := List.nodup_cons.mp distinct
      rcases List.mem_cons.mp live with rfl | later
      · exact List.find?_cons_of_pos (by simp)
      · rw [List.find?_cons_of_neg,ih later distinct]
        intro same
        have same : first.pid = P.pid := by
          have := of_decide_eq_true same
          omega
        exact fresh (same ▸ List.mem_map_of_mem later)
  rw [Host.strictCandidateCwd,found]
  cases opens : P.opens with
  | false => exact .inl ⟨by simp [opens],rfl⟩
  | true => exact .inr ⟨by simp [opens,here],rfl⟩

-- A candidate of the project's directory raises unless it only has relative tokens and
-- its directory cannot be had, or none of them is the executable.
theorem candidate_raises (live : P ∈ h.processes) (here : P.cwd = project) (classification : Classification)
    (relative : Option (List Text)) (p : Progress)
    (certain : classification = .definite ∨ relative = none ∨ P.opens = true ∧
      ∀ tokens q, relative = some tokens → h.inspectRelative executable project tokens q = none) :
    h.inspectCandidate project executable P.pid classification relative p = none := by
  rw [Host.inspectCandidate]
  simp only
  split
  · rfl
  rcases cwd_here live here with ⟨hidden,closed⟩ | ⟨open',_⟩
  · rw [hidden]
    simp only
    rw [if_neg]
    rintro ⟨unsure,some'⟩
    rcases certain with rfl | rfl | ⟨opens,_⟩
    · cases unsure
    · cases some'
    · rw [closed] at opens
      cases opens
  · rw [open']
    simp only [ne_eq,not_true_eq_false,if_false]
    split
    · rfl
    rename_i doubtful
    cases relative with
    | none => rfl
    | some tokens =>
      rcases certain with sure | none' | ⟨_,raises⟩
      · exact absurd sure doubtful
      · cases none'
      · exact raises tokens _ rfl

theorem kimi_raises (live : P ∈ h.processes) (here : P.cwd = project) (outside : excluded ≠ some (P.pgid : Int))
    (row : Row) (own : row.pid = P.pid ∧ row.pgid = P.pgid) (kimi : h.isKimi row = true) (p : Progress) :
    h.inspectRow project executable excluded row p = none := by
  rw [Host.inspectRow]
  cases h.inspectionRemaining p with
  | none => rfl
  | some p =>
    simp only [Option.bind_eq_bind,Option.bind_some,kimi,Bool.not_true,Bool.false_and,Bool.false_eq_true,if_false,own.2,
      outside,if_true,own.1]
    exact candidate_raises live here .definite none p (.inl rfl)

theorem scan_finds (each : Bool) (tokens : List Text) (token : Text) (inside : token ∈ tokens) (absolute : isabs token = true)
    (stands : h.stat token = .regular executable readable) (p : Progress) :
    ∀ finding q, h.scanTokens executable each tokens p = some (finding,q) → finding ≠ .clear := by
  induction tokens generalizing p with
  | nil => cases inside
  | cons first rest ih =>
    intro finding q scanned
    rw [Host.scanTokens] at scanned
    split at scanned
    · rename_i relative
      obtain ⟨p',_,later⟩ := Option.bind_eq_some_iff.mp scanned
      refine ih ((List.mem_cons.mp inside).resolve_left ?_) p' finding q later
      rintro rfl
      simp [absolute] at relative
    · simp only [Option.bind_eq_bind,Option.bind_eq_some_iff] at scanned
      obtain ⟨p',_,looked⟩ := scanned
      cases identity : h.candidateTokenIdentity first with
      | none =>
        rw [identity] at looked
        cases looked
        nofun
      | some found =>
        rw [identity] at looked
        obtain ⟨p'',_,looked⟩ := Option.bind_eq_some_iff.mp looked
        split at looked
        · cases looked
          nofun
        · rename_i other
          refine ih ((List.mem_cons.mp inside).resolve_left ?_) p'' finding q looked
          rintro rfl
          refine other (Option.some.inj (identity.symm.trans ?_))
          have some' : ¬ (token = [] ∨ token = lit "--") := by
            rintro (rfl | rfl) <;> cases absolute
          rw [Host.candidateTokenIdentity,if_neg some',stands]

theorem relative_raises (tokens : List Text) (token : Text) (inside : token ∈ tokens)
    (stands : (h.entry project token).target = .regular executable readable) (p : Progress) :
    h.inspectRelative executable project tokens p = none := by
  induction tokens generalizing p with
  | nil => cases inside
  | cons first rest ih =>
    rw [Host.inspectRelative]
    simp only [Option.bind_eq_bind]
    cases h.inspectionRemaining p with
    | none => rfl
    | some p' =>
      rw [Option.bind_some]
      rcases List.mem_cons.mp inside with rfl | later
      · have own : h.relativeCandidateTokenIdentity project token = none ∨
            h.relativeCandidateTokenIdentity project token = some (some executable) := by
          rw [Host.relativeCandidateTokenIdentity,stands]
          cases (h.entry project token).link <;> cases readable <;> simp
        rcases own with raised | found
        · rw [raised]
          rfl
        · rw [found,Option.bind_some]
          cases h.inspectionRemaining p' with
          | none => rfl
          | some p'' => exact if_pos rfl
      · cases h.relativeCandidateTokenIdentity project first with
        | none => rfl
        | some identity =>
          rw [Option.bind_some]
          cases h.inspectionRemaining p' with
          | none => rfl
          | some p'' =>
            rw [Option.bind_some]
            split
            · rfl
            · exact ih later p''

-- A script argument of a node, and the file it leads to: an absolute one is looked up
-- wherever the process is, a relative one in its working directory, where that opens
-- and the command line is read word by word.
def Leads (h : Host) (executable : Identity) (P : Process) (command : Text) (token : Text) : Prop :=
  (isabs token = true ∧ ∃ readable, h.stat token = .regular executable readable) ∨
    isabs token = false ∧ (∃ readable, (h.entry P.cwd token).target = .regular executable readable) ∧ P.opens = true ∧
      (strictCommandTokens command).isSome = true ∧ (readTokens command).length ≤ tokenLimit

theorem classify_leads (here : P.cwd = project) (command token : Text) (inside : token ∈ nodeCandidateTokens (readTokens command))
    (leads : Leads h executable P command token) (p : Progress)
    (classified : h.classifyNodeKimiCandidate command executable p = some ((classification,relative),q)) :
    classification ≠ .ordinary ∧ (classification = .definite ∨ relative = none ∨ P.opens = true ∧
      ∀ tokens q, relative = some tokens → h.inspectRelative executable project tokens q = none) := by
  have unclear : isabs token = true → ∀ each p finding q,
      h.scanTokens executable each (nodeCandidateTokens (readTokens command)) p = some (finding,q) → finding ≠ .clear := by
    intro absolute each p
    rcases leads with ⟨_,readable,stands⟩ | ⟨relative,_⟩
    · exact scan_finds each _ token inside absolute stands p
    · rw [absolute] at relative
      cases relative
  rw [Host.classifyNodeKimiCandidate] at classified
  simp only [Option.bind_eq_bind,Option.bind_eq_some_iff] at classified
  obtain ⟨p',_,classified⟩ := classified
  split at classified
  · rename_i long
    split at classified
    · cases classified
    · obtain ⟨⟨finding,p''⟩,scanned,answer⟩ := Option.bind_eq_some_iff.mp classified
      rcases leads with ⟨absolute,_⟩ | ⟨_,_,_,_,short⟩
      · simp only [if_neg (unclear absolute _ _ _ _ scanned)] at answer
        cases answer
      · omega
  · split at classified
    · cases classified
      exact ⟨nofun,.inl rfl⟩
    · obtain ⟨⟨finding,p''⟩,scanned,answer⟩ := Option.bind_eq_some_iff.mp classified
      cases finding with
      | found =>
        cases answer
        exact ⟨nofun,.inl rfl⟩
      | unclear =>
        cases answer
        exact ⟨nofun,.inr (.inl rfl)⟩
      | clear =>
        rcases leads with ⟨absolute,_⟩ | ⟨apart,⟨readable,stands⟩,opens,strict,_⟩
        · exact absurd rfl (unclear absolute _ _ _ _ scanned)
        · have among : token ∈ (nodeCandidateTokens (readTokens command)).filter fun token => !isabs token :=
            List.mem_filter.mpr ⟨inside,by simp [apart]⟩
          have some' : ((nodeCandidateTokens (readTokens command)).filter fun token => !isabs token).isEmpty = false :=
            List.isEmpty_eq_false_iff.mpr (List.ne_nil_of_mem among)
          simp only [strict,some',Bool.not_false,Bool.and_true,if_true] at answer
          cases answer
          refine ⟨nofun,.inr (.inr ⟨opens,fun tokens q same => ?_⟩)⟩
          cases same
          exact relative_raises _ token among (here ▸ stands) q

theorem node_raises (live : P ∈ h.processes) (here : P.cwd = project) (outside : excluded ≠ some (P.pgid : Int))
    (row : Row) (own : row.pid = P.pid ∧ row.pgid = P.pgid) (node : h.isNode row = true) (token : Text)
    (inside : token ∈ nodeCandidateTokens (readTokens row.command)) (leads : Leads h executable P row.command token)
    (p : Progress) : h.inspectRow project executable excluded row p = none := by
  cases kimi : h.isKimi row with
  | true => exact kimi_raises live here outside row own kimi p
  | false =>
    rw [Host.inspectRow]
    cases h.inspectionRemaining p with
    | none => rfl
    | some p =>
      simp only [Option.bind_eq_bind,Option.bind_some,kimi,node,Bool.not_true,Bool.and_false,Bool.false_eq_true,if_false,
        own.2,outside]
      cases classified : h.classifyNodeKimiCandidate row.command executable p with
      | none => rfl
      | some answer =>
        obtain ⟨⟨classification,relative⟩,q⟩ := answer
        obtain ⟨suspect,certain⟩ := classify_leads here row.command token inside leads p classified
        simp only [Option.bind_some,if_neg suspect,own.1]
        exact candidate_raises live here classification relative q certain

theorem rows_raise (rows : List Row) (row : Row) (inside : row ∈ rows)
    (raises : ∀ p, h.inspectRow project executable excluded row p = none) (p : Progress) :
    h.inspectRows project executable excluded rows p = none := by
  induction rows generalizing p with
  | nil => cases inside
  | cons first rest ih =>
    rw [Host.inspectRows]
    rcases List.mem_cons.mp inside with rfl | later
    · rw [raises]
      rfl
    · cases h.inspectRow project executable excluded first p with
      | none => rfl
      | some q => exact ih later q

theorem assert_raises (h : Host) (project executable : Bound) (excluded : Option Int)
    (raises : ∀ p rows after, h.readRows (splitlines h.stdout) p = some (rows,after) →
      ∃ row ∈ rows, ∀ q, h.inspectRow (project.dev,project.ino) (executable.dev,executable.ino) excluded row q = none) :
    h.assertNoLiveKimiInProject project executable excluded = none := by
  have identified : ∀ (value : Bound) identity, strictIdentity value = some identity → identity = (value.dev,value.ino) := by
    intro value identity found
    unfold strictIdentity at found
    split at found
    · cases found
    · exact (Option.some.inj found).symm
  have inspected : ∀ result, h.inspect project executable excluded ≠ some result := by
    intro result passed
    simp only [Host.inspect,Option.bind_eq_bind,Option.bind_eq_some_iff] at passed
    obtain ⟨first,here,_,_,second,bound,_,_,passed⟩ := passed
    cases identified project first here
    cases identified executable second bound
    split at passed
    · cases passed
    · obtain ⟨⟨rows,after⟩,listed,p,_,final,checked,_⟩ := by
        simpa only [Option.bind_eq_some_iff] using passed
      simp only [Host.strictProcessRows,Option.bind_eq_bind,Option.bind_eq_some_iff] at listed
      obtain ⟨_,_,listed⟩ := listed
      split at listed
      · cases listed
      · obtain ⟨start,_,read⟩ := Option.bind_eq_some_iff.mp listed
        obtain ⟨row,inside,raised⟩ := raises start rows after read
        rw [rows_raise rows row inside raised p] at checked
        cases checked
  refine Option.eq_none_iff_forall_ne_some.mpr fun result passed => ?_
  simp only [Host.assertNoLiveKimiInProject,Option.bind_eq_bind,Option.bind_eq_some_iff] at passed
  obtain ⟨_,_,_,_,_,_,_,checked,_⟩ := passed
  exact inspected _ checked

theorem basename_quotes (word : Text) (plain : ∀ c ∈ word, c ≠ slash ∧ isQuote c = false) (some' : word ≠ []) (t : Text)
    (named : basename t = word) : basename (stripQuotes t) = word := by
  obtain ⟨pre,shape,ends⟩ := basename_shape t
  rw [named] at shape
  subst shape
  have slashless : ∀ c ∈ word, c ≠ slash := fun c inside => (plain c inside).1
  have kept := fun before => @Words.rdropWhile_word _ isQuote word before [] some' fun c inside => (plain c inside).2
  simp only [List.append_nil,List.rdropWhile_nil] at kept
  obtain ⟨c,rest,first⟩ := List.exists_cons_of_ne_nil some'
  have begins := (plain c (first ▸ List.mem_cons_self)).2
  rw [stripQuotes,Words.strip,List.dropWhile_append]
  split
  · rename_i quotes
    rcases ends with rfl | ⟨early,rfl⟩
    · have same : word.dropWhile isQuote = word := by
        rw [first,List.dropWhile_cons_of_neg (by simp [begins])]
      have alone := kept []
      rw [List.nil_append] at alone
      rw [same,alone,basename_word word slashless]
    · have all := List.dropWhile_eq_nil_iff.mp (List.isEmpty_iff.mp quotes) slash (by simp)
      cases all
  · rename_i left
    rw [kept]
    rcases ends with rfl | ⟨early,rfl⟩
    · simp at left
    · obtain ⟨front,whole⟩ := List.dropWhile_suffix (l := early ++ [slash]) isQuote
      rcases List.eq_nil_or_concat' ((early ++ [slash]).dropWhile isQuote) with none' | ⟨body,last,cut⟩
      · simp [none'] at left
      · rw [cut,← List.append_assoc] at whole
        cases (List.append_inj' whole rfl).2
        rw [cut,basename_after body word slashless]

theorem basename_second (word : Text) (solid : Solid word) (front back : Text) (c : Point) (blank : isSpace c = true)
    (named : basename (front ++ (c :: back)) = word) : basename back = word := by
  have apart : c ≠ slash := by
    rintro rfl
    cases blank
  obtain ⟨pre,shape,ends⟩ := basename_shape back
  rcases ends with rfl | ⟨early,rfl⟩
  · have plain : ∀ d ∈ back, d ≠ slash := by
      intro d inside
      rw [shape,List.nil_append] at inside
      simpa using List.mem_rtakeWhile_imp inside
    have among : c ∈ basename (front ++ (c :: back)) := by
      rw [basename,List.rtakeWhile,List.reverse_append,List.reverse_cons,List.append_assoc,
        List.takeWhile_append_of_pos fun d inside => by simpa using plain d (List.mem_reverse.mp inside)]
      simp [apart]
    have clash := solid c (named ▸ among)
    rw [blank] at clash
    cases clash
  · rw [← named]
    have word' : ∀ d ∈ basename back, d ≠ slash := fun d inside => by simpa using List.mem_rtakeWhile_imp inside
    have whole : front ++ (c :: back) = (front ++ c :: early) ++ [slash] ++ basename back := by
      conv_lhs => rw [shape]
      simp
    rw [whole,basename_after _ _ word']

-- Blanks at one place at most, and no line break there.
def TwoWords (t : Text) : Prop := Solid t ∨ ∃ front gap back, t = front ++ (gap ++ back) ∧ front ≠ [] ∧ Solid front ∧
  gap ≠ [] ∧ Blank gap ∧ Unbroken gap ∧ Solid back

-- What the first printed line of a process holds after its first blank.
def Process.command (P : Process) : Text :=
  strip (((P.comm ++ (spaces (P.pad + 1) ++ joined P.args)).dropWhile (!isSpace ·)).takeWhile (!isBreak ·))

structure RunsKimi (P : Process) : Prop where
  named : basename P.comm = lit "kimi"
  words : TwoWords P.comm

-- A node, one of whose script arguments, as its command line is read, leads to the executable.
structure RunsScript (h : Host) (executable : Identity) (P : Process) : Prop where
  named : basename P.comm ∈ nodeExecutables
  words : TwoWords P.comm
  script : ∃ token ∈ nodeCandidateTokens (readTokens P.command), Leads h executable P P.command token

-- A name without blanks, slashes and quotes.
abbrev PlainName (name : Text) : Prop := name ≠ [] ∧ ∀ c ∈ name, isSpace c = false ∧ c ≠ slash ∧ isQuote c = false

theorem through (t late : Text) (clean : Unbroken t) :
    (t ++ late).takeWhile (!isBreak ·) = t ++ late.takeWhile (!isBreak ·) :=
  List.takeWhile_append_of_pos fun c inside => by simp [clean c inside]

theorem named_row (live : P ∈ h.processes) (read : h.readRows (splitlines h.stdout) p = some (rows,after))
    (words : TwoWords P.comm) (plain : PlainName name) (named : basename P.comm = name) :
    ∃ row ∈ rows, (row.pid = P.pid ∧ row.pgid = P.pgid) ∧ (P.command ≠ [] → row.command = P.command) ∧
      (basename row.argv0 = name ∨ executableBasename row.command = name) := by
  rcases words with solid | ⟨front,gap,back,shape,some',solid,apart,blank,unbroken,solid'⟩
  · have some' : P.comm ≠ [] := by
      intro none'
      rw [none'] at named
      exact plain.1 named.symm
    have drops := (Words.takeWhile_word solid (spaces_end P.pad (joined P.args))).2
    refine ⟨_,process_row live read P.comm _ rfl some' solid (spaces_end P.pad _),⟨rfl,rfl⟩,fun spoken => ?_,.inl named⟩
    simp only
    rw [Process.command,drops] at spoken ⊢
    rw [if_neg spoken]
  · obtain ⟨c,later,first⟩ := List.exists_cons_of_ne_nil apart
    have second : basename back = name := by
      obtain ⟨early,last,rfl⟩ := (List.eq_nil_or_concat' gap).resolve_left apart
      refine basename_second _ (fun c inside => (plain.2 c inside).1) (front ++ early) back last (blank last (by simp)) ?_
      rw [← named,shape]
      simp
    have solid'' : back ≠ [] := by
      rintro rfl
      exact plain.1 second.symm
    have ends : Words.Ends isSpace (gap ++ (back ++ (spaces (P.pad + 1) ++ joined P.args))) := by
      rw [first]
      intro d same
      cases same
      exact blank _ (first ▸ List.mem_cons_self)
    have tail := Words.ends_begins (List.rdropWhile_prefix isSpace _) (Words.ends_begins (List.takeWhile_prefix (!isBreak ·))
      (spaces_end P.pad (joined P.args)))
    have token := @Words.split_word _ isSpace [] back _ 0 (by simp) solid'' solid' tail
    have whole : P.comm ++ (spaces (P.pad + 1) ++ joined P.args) = front ++ (gap ++ (back ++ (spaces (P.pad + 1) ++ joined P.args))) := by
      rw [shape]
      simp
    have line : strip ((gap ++ (back ++ (spaces (P.pad + 1) ++ joined P.args))).takeWhile (!isBreak ·)) =
        back ++ (((spaces (P.pad + 1) ++ joined P.args).takeWhile (!isBreak ·)).rdropWhile isSpace) := by
      rw [through gap _ unbroken,through back _ (solid_unbroken solid'),strip,Words.strip_word _ blank solid'' solid']
    have command : P.command = strip ((gap ++ (back ++ (spaces (P.pad + 1) ++ joined P.args))).takeWhile (!isBreak ·)) := by
      rw [Process.command,whole,(Words.takeWhile_word solid ends).2]
    have spoken : ¬ P.command = [] := by
      rw [command,line]
      simp [solid'']
    refine ⟨_,process_row live read front _ whole some' solid ends,⟨rfl,rfl⟩,fun _ => ?_,.inr ?_⟩
    · simp only
      rw [← command,if_neg spoken]
    · simp only
      rw [← command,if_neg spoken,command,line,executableBasename]
      rw [List.nil_append] at token
      rw [token]
      exact basename_quotes name (fun c inside => (plain.2 c inside).2) plain.1 back second

theorem lower_kimi (u : Unicode) : lower u (lit "kimi") = lit "kimi" := rfl

theorem lower_node (u : Unicode) (name : Text) (node : name ∈ nodeExecutables) : lower u name = name := by
  rcases List.mem_cons.mp node with rfl | node
  · rfl
  · cases List.mem_singleton.mp node
    rfl

theorem node_plain (name : Text) (node : name ∈ nodeExecutables) : PlainName name := by
  rcases List.mem_cons.mp node with rfl | node
  · decide
  · cases List.mem_singleton.mp node
    decide

-- A word that a shell reads as it stands.
structure PlainWord (word : Text) : Prop where
  plain : Shell.Plain shlex word
  solid : Solid word
  chars : ∀ c ∈ word, ∃ d, c = .char d ∧ d ≠ '\x00'

theorem joined_last (first : Text) (args : List Text) :
    ∃ early last, joined (first :: args) = early ++ last ∧ last ∈ first :: args := by
  rcases List.eq_nil_or_concat' args with rfl | ⟨before,last,rfl⟩
  · exact ⟨[],first,by simp [joined],by simp⟩
  · exact ⟨first ++ before.flatMap (blank :: ·) ++ [blank],last,by simp [joined],by simp⟩

theorem joined_mem (inside : c ∈ joined args) : c = blank ∨ ∃ word ∈ args, c ∈ word := by
  cases args with
  | nil => cases inside
  | cons first rest =>
    rcases List.mem_append.mp inside with early | late
    · exact .inr ⟨first,List.mem_cons_self,early⟩
    · obtain ⟨word,among,within⟩ := List.mem_flatMap.mp late
      rcases List.mem_cons.mp within with rfl | within
      · exact .inl rfl
      · exact .inr ⟨word,List.mem_cons_of_mem _ among,within⟩

theorem strict_tokens (chars : ∀ c ∈ command, ∃ d, c = .char d) (read : Shell.split shlex command = some tokens)
    (solid : tokens ≠ []) (clear : ∀ word ∈ tokens, .char '\x00' ∉ word) : strictCommandTokens command = some tokens := by
  unfold strictCommandTokens
  split
  · rename_i bytes
    obtain ⟨c,inside,byte⟩ := List.any_eq_true.mp bytes
    obtain ⟨d,rfl⟩ := chars c inside
    cases byte
  · rw [read]
    simp only
    rw [if_neg]
    rintro (none' | nul)
    · exact solid none'
    · obtain ⟨word,among,inside⟩ := List.any_eq_true.mp nul
      exact clear word among (of_decide_eq_true inside)

theorem plain_unbroken {args : List Text} (plain : ∀ word ∈ args, PlainWord word) : Unbroken (joined args) := fun c inside => by
  rcases joined_mem inside with rfl | ⟨word,among,within⟩
  · rfl
  · exact solid_unbroken (plain word among).solid c within

theorem strip_joined {args : List Text} (some' : args ≠ []) (plain : ∀ word ∈ args, PlainWord word) (n : Nat) :
    strip (spaces n ++ joined args) = joined args := by
  obtain ⟨first,args,rfl⟩ := List.exists_cons_of_ne_nil some'
  have starts := plain first List.mem_cons_self
  obtain ⟨early,last,cut,among⟩ := joined_last first args
  have ends := plain last among
  have kept := Words.rdropWhile_word early [] ends.plain.1 ends.solid
  rw [List.append_nil,List.rdropWhile_nil,List.append_nil,← cut] at kept
  have started : (joined (first :: args)).dropWhile isSpace = joined (first :: args) := by
    obtain ⟨c,more,head⟩ := List.exists_cons_of_ne_nil starts.plain.1
    rw [joined,head,List.cons_append,List.dropWhile_cons_of_neg (by simp [starts.solid c (head ▸ List.mem_cons_self)])]
  rw [strip,Words.strip,List.dropWhile_append_of_pos (blank_spaces _),started,kept]

theorem plain_command (comm : Solid P.comm) (some' : P.args ≠ []) (plain : ∀ word ∈ P.args, PlainWord word) :
    P.command = joined P.args := by
  rw [Process.command,(Words.takeWhile_word comm (spaces_end P.pad _)).2,through _ _ (spaces_unbroken _),
    List.takeWhile_eq_self_iff.mpr fun c inside => by simp [plain_unbroken plain c inside],strip_joined some' plain]

theorem plain_strict {args : List Text} (some' : args ≠ []) (plain : ∀ word ∈ args, PlainWord word) :
    strictCommandTokens (joined args) = some args := by
  obtain ⟨first,rest,rfl⟩ := List.exists_cons_of_ne_nil some'
  refine strict_tokens (fun c inside => ?_) (Shell.split_plain (by decide) fun word among => (plain word among).plain)
    some' fun word among inside => ?_
  · rcases joined_mem inside with rfl | ⟨word,among,within⟩
    · exact ⟨_,rfl⟩
    · obtain ⟨d,same,_⟩ := (plain word among).chars c within
      exact ⟨d,same⟩
  · obtain ⟨d,same,clear⟩ := (plain word among).chars _ inside
    exact clear (Point.char.inj same).symm

theorem plain_args_read (comm : Solid P.comm) (some' : P.args ≠ []) (plain : ∀ word ∈ P.args, PlainWord word) :
    readTokens P.command = P.args := by
  rw [plain_command comm some' plain,readTokens,plain_strict some' plain]
  rfl

theorem plain_script (named : basename P.comm ∈ nodeExecutables) (comm : Solid P.comm) (some' : P.args ≠ [])
    (plain : ∀ word ∈ P.args, PlainWord word) (inside : token ∈ nodeCandidateTokens P.args)
    (leads : (isabs token = true ∧ ∃ readable, h.stat token = .regular executable readable) ∨
      isabs token = false ∧ (∃ readable, (h.entry P.cwd token).target = .regular executable readable) ∧ P.opens = true ∧
        P.args.length ≤ tokenLimit) : RunsScript h executable P := by
  have command := plain_command comm some' plain
  have read := plain_args_read comm some' plain
  refine ⟨named,.inl comm,token,read.symm ▸ inside,?_⟩
  rcases leads with absolute | ⟨relative,stands,opens,short⟩
  · exact .inl absolute
  · exact .inr ⟨relative,stands,opens,by rw [command,plain_strict some' plain]; rfl,read.symm ▸ short⟩

-- Such a process in the project, outside the excluded group, is never let through, however
-- many others there are and whatever they print.
theorem live_owner_raises (h : Host) (project executable : Bound) (excluded : Option Int) (live : P ∈ h.processes)
    (here : P.cwd = (project.dev,project.ino)) (outside : excluded ≠ some (P.pgid : Int))
    (runs : RunsKimi P ∨ RunsScript h (executable.dev,executable.ino) P) :
    h.assertNoLiveKimiInProject project executable excluded = none := by
  refine assert_raises h project executable excluded fun p rows after read => ?_
  rcases runs with kimi | script
  · obtain ⟨row,inside,own,_,named⟩ := named_row live read kimi.words (by decide) kimi.named
    refine ⟨row,inside,kimi_raises live here outside row own ?_⟩
    rcases named with named | named
    · simp [Host.isKimi,named,lower_kimi]
    · simp [Host.isKimi,named,lower_kimi]
  · obtain ⟨row,inside,own,command,named⟩ := named_row live read script.words (node_plain _ script.named) rfl
    obtain ⟨token,among,leads⟩ := script.script
    have spoken : P.command ≠ [] := by
      intro none'
      rw [none'] at among
      cases among
    refine ⟨row,inside,node_raises live here outside row own ?_ token (command spoken ▸ among) (command spoken ▸ leads)⟩
    rcases named with named | named
    · simp [Host.isNode,named,lower_node _ _ script.named,script.named]
    · simp [Host.isNode,named,lower_node _ _ script.named,script.named]

def kimiMain : Bound := ⟨7,7,lit "/opt/kimi/dist/main.mjs"⟩
def projectDir : Bound := ⟨1,1,lit "/home/me/project"⟩

-- A machine with one process, whose directory holds a link alias.mjs to the executable.
def oneHost (P : Process) : Host where
  processes := [P]
  distinct := by simp
  psAnswers := true
  stat path := if path = kimiMain.canonicalPath then .regular (7,7) true else .absent
  entry cwd token := if cwd = (1,1) ∧ token = lit "alias.mjs" then ⟨true,.regular (7,7) true⟩ else ⟨false,.absent⟩
  lstat path := if path = kimiMain.canonicalPath then some ⟨true,(7,7),501,0o755,1,4096,0⟩ else none
  uid := 501
  late _ := false
  unicode := ⟨fun c => [c],fun _ => none⟩

def nodeProcess (args : List Text) (opens : Bool) : Process where
  pid := 40
  pgid := 40
  comm := lit "node"
  args := args
  cwd := (1,1)
  opens := opens
  real := by decide

theorem live_owner_raises_node :
    (oneHost (nodeProcess [lit "node",lit "alias.mjs"] true)).assertNoLiveKimiInProject projectDir kimiMain none = none := by
  refine live_owner_raises _ projectDir kimiMain none List.mem_cons_self rfl nofun (.inr ⟨by decide,.inl (by decide),
    lit "alias.mjs",by decide +kernel,.inr ⟨rfl,⟨true,?_⟩,rfl,by decide +kernel,by decide +kernel⟩⟩)
  rfl

def longArgs (n : Nat) : List Text := lit "node" :: lit "alias.mjs" :: List.replicate n (lit "a")

theorem longArgs_cases (n : Nat) : ∀ word ∈ longArgs n, word = lit "node" ∨ word = lit "alias.mjs" ∨ word = lit "a" := by
  intro word inside
  rcases List.mem_cons.mp inside with rfl | inside
  · exact .inl rfl
  · rcases List.mem_cons.mp inside with rfl | among
    · exact .inr (.inl rfl)
    · exact .inr (.inr (List.eq_of_mem_replicate among))

def plainChar (d : Char) : Bool :=
  !shlex.blank (.char d) && !shlex.quotes (.char d) && !shlex.escape (.char d) && !isSpace (.char d) && d != '\x00'

theorem plain_lit (s : String) (some' : lit s ≠ []) (each : s.toList.all plainChar = true) : PlainWord (lit s) := by
  have own : ∀ c ∈ lit s, ∃ d, c = .char d ∧ plainChar d = true := by
    intro c inside
    obtain ⟨d,among,rfl⟩ := List.mem_map.mp inside
    exact ⟨d,rfl,List.all_eq_true.mp each d among⟩
  refine ⟨⟨some',fun c inside => ?_⟩,fun c inside => ?_,fun c inside => ?_⟩
  all_goals
    obtain ⟨d,rfl,plain⟩ := own c inside
    simp only [plainChar,Bool.and_eq_true,Bool.not_eq_true',bne_iff_ne] at plain
    obtain ⟨⟨⟨⟨blank,quote⟩,escape⟩,solid⟩,some'⟩ := plain
  · exact ⟨blank,quote,escape⟩
  · exact solid
  · exact ⟨d,rfl,some'⟩

theorem longArgs_plain (n : Nat) : ∀ word ∈ longArgs n, PlainWord word := by
  intro word inside
  rcases longArgs_cases n word inside with rfl | rfl | rfl
  · exact plain_lit "node" (by decide) rfl
  · exact plain_lit "alias.mjs" (by decide) rfl
  · exact plain_lit "a" (by decide) rfl

theorem nodeValues_plain (tokens : List Text) (plain : ∀ token ∈ tokens, startsWith (lit "-") token = false) :
    nodeValues false false tokens = tokens := by
  induction tokens with
  | nil => rfl
  | cons token rest ih =>
    have own := plain token List.mem_cons_self
    have apart : ∀ option : Text, startsWith (lit "-") option = true → token ≠ option := by
      rintro option dashed rfl
      rw [own] at dashed
      cases dashed
    have longer : ∀ option : Text, startsWith (lit "-") option = true → startsWith option token = false := by
      intro option dashed
      rw [Bool.eq_false_iff]
      intro begins
      have dash : startsWith (lit "-") token = true :=
        decide_eq_true ((of_decide_eq_true dashed).trans (of_decide_eq_true begins))
      rw [own] at dash
      cases dash
    have code : token ∉ nodeCodeOptions := fun inside => by
      have all : ∀ option ∈ nodeCodeOptions, startsWith (lit "-") option = true := by decide
      exact apart token (all token inside) rfl
    rw [nodeValues,if_neg (apart _ (by decide)),if_neg code,ih fun t inside => plain t (List.mem_cons_of_mem _ inside),
      nodeTokenValues,longer (lit "-e") (by decide),longer (lit "-p") (by decide),own]
    rfl

theorem classify_long (h : Host) (command : Text) (executable : Identity) (p : Progress)
    (many : tokenLimit < (readTokens command).length) (few : p.tokens + (readTokens command).length ≤ totalTokenLimit)
    (quiet : hasKimiIndicator h.unicode (nodeCandidateTokens (readTokens command)) = false)
    (relative : ∀ token ∈ nodeCandidateTokens (readTokens command), isabs token = false) :
    h.classifyNodeKimiCandidate command executable p =
      some ((.ordinary,none),{p with tokens := p.tokens + (readTokens command).length}) := by
  have clear : ∀ (tokens : List Text) (q : Progress), (∀ token ∈ tokens, isabs token = false) →
      h.scanTokens executable false tokens q = some (.clear,q) := by
    intro tokens q all
    induction tokens with
    | nil => rfl
    | cons first rest ih =>
      rw [Host.scanTokens,all first List.mem_cons_self]
      exact ih fun token inside => all token (List.mem_cons_of_mem _ inside)
  rw [Host.classifyNodeKimiCandidate,Host.consumeNodeTokenBudget,if_neg (by omega)]
  simp only [Option.bind_eq_bind,Option.bind_some,if_pos many,quiet,clear _ _ relative]
  rfl

theorem longArgs_first (n : Nat) : executableBasename (joined (longArgs n)) = lit "node" := by
  have ends : Words.Ends isSpace ((lit "alias.mjs" :: List.replicate n (lit "a")).flatMap (blank :: ·)) := by
    intro c first
    cases first
    rfl
  have token := @Words.split_word _ isSpace [] (lit "node") _ 0 (by simp) (by decide) (by decide) ends
  rw [List.nil_append] at token
  rw [executableBasename,longArgs,joined,token]
  rfl

theorem longArgs_quiet (u : Unicode) (n : Nat) : hasKimiIndicator u (longArgs n).tail = false := by
  rw [hasKimiIndicator,List.any_eq_false]
  intro word inside
  rcases longArgs_cases n word (List.mem_cons_of_mem _ inside) with rfl | rfl | rfl
  · exact Bool.eq_false_iff.mp rfl
  · exact Bool.eq_false_iff.mp rfl
  · exact Bool.eq_false_iff.mp rfl

theorem node_row (args : List Text) (opens : Bool) (some' : args ≠ []) (plain : ∀ word ∈ args, PlainWord word) (p : Progress) :
    (oneHost (nodeProcess args opens)).readRows (splitlines (oneHost (nodeProcess args opens)).stdout) p =
      some ([⟨40,40,lit "node",joined args⟩],{p with ticks := p.ticks + 1}) := by
  have line : (oneHost (nodeProcess args opens)).stdout =
      lineOf 0 0 0 40 40 (lit "node") (spaces 1 ++ joined args) ++ [feed] := by
    rw [Host.stdout,oneHost,List.flatMap_singleton]
    rfl
  have whole : ∀ c ∈ lineOf 0 0 0 40 40 (lit "node") (spaces 1 ++ joined args), isBreak c = false := by
    have word : Unbroken (lit "node") := by decide
    have kept := first_line 0 0 0 40 40 (spaces 1 ++ joined args) word
    have same : (joined args).takeWhile (!isBreak ·) = joined args :=
      List.takeWhile_eq_self_iff.mpr fun c inside => by simp [plain_unbroken plain c inside]
    rw [through _ _ (spaces_unbroken _),same] at kept
    intro c inside
    simpa using List.takeWhile_eq_self_iff.mp kept c inside
  have row := readRow_line (oneHost (nodeProcess args opens)) 0 0 0 40 40 (lit "node") (spaces 1 ++ joined args)
    (by decide) (by decide) (by decide) (spaces_end 0 _)
  obtain ⟨first,rest,rfl⟩ := List.exists_cons_of_ne_nil some'
  have shown : joined (first :: rest) ≠ [] := by
    intro none'
    exact (plain first List.mem_cons_self).plain.1 (List.append_eq_nil_iff.mp none').1
  rw [strip_joined some' plain,if_neg shown] at row
  rw [line,splitlines,Words.lines_single rfl [] _ whole,List.nil_append]
  simp only [Host.readRows,row]
  rfl

theorem long_script (n : Nat) (many : tokenLimit ≤ n) (few : n + 2 ≤ totalTokenLimit) :
    (oneHost (nodeProcess (longArgs n) true)).assertNoLiveKimiInProject projectDir kimiMain none = some () := by
  have some' : longArgs n ≠ [] := List.cons_ne_nil _ _
  have plain := longArgs_plain n
  have read : readTokens (joined (longArgs n)) = longArgs n := by
    rw [readTokens,plain_strict some' plain]
    rfl
  have length : (longArgs n).length = n + 2 := by
    rw [longArgs,List.length_cons,List.length_cons,List.length_replicate]
  have candidates : nodeCandidateTokens (longArgs n) = (longArgs n).tail := by
    refine nodeValues_plain _ fun token inside => ?_
    rcases longArgs_cases n token (List.mem_cons_of_mem _ inside) with rfl | rfl | rfl <;> decide
  have relative : ∀ token ∈ (longArgs n).tail, isabs token = false := by
    intro token inside
    rcases longArgs_cases n token (List.mem_cons_of_mem _ inside) with rfl | rfl | rfl <;> decide
  have ordinary : ∀ p : Progress, p.tokens = 0 → ∃ after, (oneHost (nodeProcess (longArgs n) true)).inspectRow (1,1) (7,7) none
      ⟨40,40,lit "node",joined (longArgs n)⟩ p = some after := by
    intro p fresh
    have classified := classify_long (oneHost (nodeProcess (longArgs n) true)) (joined (longArgs n)) (7,7)
      {p with ticks := p.ticks + 1} (by rw [read]; omega) (by rw [read,fresh]; omega)
      (by rw [read,candidates]; exact longArgs_quiet _ n) (by rw [read,candidates]; exact relative)
    have kimi : (oneHost (nodeProcess (longArgs n) true)).isKimi ⟨40,40,lit "node",joined (longArgs n)⟩ = false := by
      rw [Host.isKimi,longArgs_first]
      rfl
    have node : (oneHost (nodeProcess (longArgs n) true)).isNode ⟨40,40,lit "node",joined (longArgs n)⟩ = true := by
      rw [Host.isNode,longArgs_first]
      rfl
    exact ⟨_,by
      rw [Host.inspectRow,kimi,node]
      exact (congrArg (Option.bind · _) classified).trans rfl⟩
  have binding : (oneHost (nodeProcess (longArgs n) true)).strictExecutableBinding kimiMain.canonicalPath (7,7) =
      some ⟨true,(7,7),501,0o755,1,4096,0⟩ := rfl
  obtain ⟨after,inspected⟩ := ordinary {ticks := 4} rfl
  have rows : (oneHost (nodeProcess (longArgs n) true)).strictProcessRows {} =
      some ([⟨40,40,lit "node",joined (longArgs n)⟩],{ticks := 3}) := node_row (longArgs n) true some' plain {ticks := 2}
  have due : (oneHost (nodeProcess (longArgs n) true)).inspectionRemaining {ticks := 3} = some {ticks := 4} := rfl
  have walked : (oneHost (nodeProcess (longArgs n) true)).inspectRows (1,1) (7,7) none
      [⟨40,40,lit "node",joined (longArgs n)⟩] {ticks := 4} = some after := by
    rw [Host.inspectRows,inspected]
    rfl
  have named : strictIdentity projectDir = some (1,1) ∧ strictIdentity kimiMain = some (7,7) ∧
      ∀ value ∈ [projectDir,kimiMain], strictCanonicalPath value = some value.canonicalPath := by decide
  have passed : (oneHost (nodeProcess (longArgs n) true)).inspect projectDir kimiMain none = some () := by
    simp only [Host.inspect,named.1,named.2.1,named.2.2 projectDir (by simp),named.2.2 kimiMain (by simp),rows,due,walked,
      Option.bind_eq_bind,Option.bind_some,Option.any_none]
    rfl
  simp only [Host.assertNoLiveKimiInProject,named.2.1,named.2.2 kimiMain (by simp),binding,passed,Option.bind_eq_bind,
    Option.bind_some]
  rfl

-- A node with a relative script is let through where its directory cannot be opened, where
-- its command line is malformed, and where it holds too many words.
theorem relative_script_passes :
    (oneHost (nodeProcess [lit "node",lit "alias.mjs"] false)).assertNoLiveKimiInProject projectDir kimiMain none = some () ∧
      (oneHost (nodeProcess [lit "node",lit "alias.mjs",lit "it's"] true)).assertNoLiveKimiInProject projectDir kimiMain none =
        some () ∧
      (oneHost (nodeProcess (lit "node" :: lit "alias.mjs" :: List.replicate 4096 (lit "a")) true)).assertNoLiveKimiInProject
        projectDir kimiMain none = some () ∧
      (∀ args opens, (nodeProcess args opens).cwd = (projectDir.dev,projectDir.ino)) ∧
      ∀ args opens, ((oneHost (nodeProcess args opens)).entry (1,1) (lit "alias.mjs")).target =
        .regular (kimiMain.dev,kimiMain.ino) true :=
  ⟨by decide +kernel,by decide +kernel,long_script 4096 (by decide) (by decide),fun _ _ => rfl,fun _ _ => rfl⟩

end AgentSideCar.LiveOwner
