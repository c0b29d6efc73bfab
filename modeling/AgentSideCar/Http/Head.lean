import AgentSideCar.Library.Dict
import AgentSideCar.Library.Lines
import AgentSideCar.Library.Pairs
import AgentSideCar.Library.Words

namespace AgentSideCar.Http

abbrev Bytes := List UInt8

def ascii (s : String) : Bytes := s.toList.map fun c => c.toNat.toUInt8

def maxHeaderBytes : Nat := 16 * 1024
def maxRequestLineBytes : Nat := 4096

def cr : UInt8 := 13
def lf : UInt8 := 10
def blank : UInt8 := 32
def colon : UInt8 := 58
def slash : UInt8 := 47
def hash : UInt8 := 35

def isDigit (b : UInt8) : Bool := 48 ≤ b && b ≤ 57
def isUpper (b : UInt8) : Bool := 65 ≤ b && b ≤ 90
def isLower (b : UInt8) : Bool := 97 ≤ b && b ≤ 122
def isMark (b : UInt8) : Bool := (ascii "!#$%&'*+-.^_`|~").contains b
def isToken (b : UInt8) : Bool := isMark b || isDigit b || isUpper b || isLower b
def isName (t : Bytes) : Bool := !t.isEmpty && t.all isToken
def isAscii (t : Bytes) : Bool := t.all (· < 128)
def isPad (b : UInt8) : Bool := b = 32 || b = 9
def isControl (b : UInt8) : Bool := (b < 32 && b ≠ 9) || b = 127
def lower (b : UInt8) : UInt8 := if isUpper b then b + 32 else b

-- Why a request is not served: the status of the answer, and whether it goes without its body;
-- or the interpreter, which turns away a number of too many digits.
inductive Fault where
  | refused (status : Nat) (headOnly : Bool)
  | valueError
  deriving DecidableEq

structure Request where
  method : Bytes
  target : Bytes
  headers : Dict Bytes (List Bytes)
  deriving DecidableEq

def methodGet : Bytes := ascii "GET"
def methodHead : Bytes := ascii "HEAD"
def versions : List Bytes := [ascii "HTTP/1.0",ascii "HTTP/1.1"]

def host : Bytes := ascii "host"
def authorization : Bytes := ascii "authorization"
def contentLength : Bytes := ascii "content-length"
def origin : Bytes := ascii "origin"
def transferEncoding : Bytes := ascii "transfer-encoding"
def expect : Bytes := ascii "expect"
def singular : List Bytes := [host,authorization,contentLength,origin]

def values (headers : Dict Bytes (List Bytes)) (key : Bytes) : List Bytes := (headers.get key).getD []

def startLine (line : Bytes) : Except Fault (Bytes × Bytes) :=
  if maxRequestLineBytes < line.length + 2 then .error (.refused 400 false)
  else match line.splitOn blank with
    | [method,target,version] =>
      if method = [] ∨ target = [] ∨ version = [] ∨ isName method = false then .error (.refused 400 false)
      else if isAscii target = false ∨ isAscii version = false then .error (.refused 400 false)
      else
        let headOnly := decide (method = methodHead)
        if version ∉ versions then .error (.refused 505 headOnly)
        else if ¬ [slash] <+: target ∨ [slash,slash] <+: target ∨ hash ∈ target then .error (.refused 400 headOnly)
        else .ok (method,target)
    | _ => .error (.refused 400 false)

def headerLine (headOnly : Bool) (line : Bytes) : Except Fault (Bytes × Bytes) :=
  if line = [] ∨ [32] <+: line ∨ [9] <+: line ∨ colon ∉ line ∨ 0 ∈ line then .error (.refused 400 headOnly)
  else match Lines.nextLine colon line with
    | none => .error (.refused 400 headOnly)
    | some (name,value) =>
      if isName name = false then .error (.refused 400 headOnly)
      else
        let value := Words.strip isPad value
        if value.any isControl then .error (.refused 400 headOnly) else .ok (name.map lower,value)

def headerLines (headOnly : Bool) : Dict Bytes (List Bytes) → List Bytes → Except Fault (Dict Bytes (List Bytes))
  | parsed,[] => .ok parsed
  | parsed,line :: lines => match headerLine headOnly line with
    | .error fault => .error fault
    | .ok (key,value) => headerLines headOnly (parsed.set key (values parsed key ++ [value])) lines

-- int() of ASCII digits.
def number (digits : Bytes) : Nat := digits.foldl (fun n b => 10 * n + (b.toNat - 48)) 0

def tooLong (limit : Option Nat) (digits : Bytes) : Bool := limit.any (· < digits.length)

-- What the headers say of a body: a request has none.
def framing (limit : Option Nat) (headOnly : Bool) (headers : Dict Bytes (List Bytes)) : Except Fault Unit :=
  if ∃ key ∈ singular, 1 < (values headers key).length then .error (.refused 400 headOnly)
  else if (headers.get transferEncoding).isSome then .error (.refused 400 headOnly)
  else if (headers.get expect).isSome then .error (.refused 417 headOnly)
  else match values headers contentLength with
    | [] => .ok ()
    | length :: _ =>
      if length = [] ∨ length.all isDigit = false then .error (.refused 400 headOnly)
      else if tooLong limit length then .error .valueError
      else if number length ≠ 0 then .error (.refused 413 headOnly)
      else .ok ()

-- `limit` is the interpreter's on the digits of an integer. The head comes without the blank
-- line behind it.
def parseHead (limit : Option Nat) (head : Bytes) : Except Fault Request :=
  match Pairs.cut cr lf head with
  | [] => .error (.refused 400 false)
  | first :: lines => match startLine first with
    | .error fault => .error fault
    | .ok (method,target) =>
      let headOnly := decide (method = methodHead)
      match headerLines headOnly Dict.empty lines with
      | .error fault => .error fault
      | .ok headers => match framing limit headOnly headers with
        | .error fault => .error fault
        | .ok () => if method = methodGet ∨ method = methodHead then .ok ⟨method,target,headers⟩ else .error (.refused 405 false)

-- A header line as it may be written: its value stands between blanks and holds no control sign.
structure Field where
  name : Bytes
  before : Bytes
  value : Bytes
  after : Bytes
  named : isName name = true
  padded : ∀ b ∈ before ++ after, isPad b = true
  tight : Words.strip isPad value = value
  plain : value.any isControl = false

def Field.line (f : Field) : Bytes := f.name ++ colon :: (f.before ++ f.value ++ f.after)
def Field.key (f : Field) : Bytes := f.name.map lower

def valuesOf (fields : List Field) (key : Bytes) : List Bytes := (fields.filter fun f => f.key = key).map Field.value

-- What the headers of a request without a body come to.
structure Bodiless (limit : Option Nat) (of : Bytes → List Bytes) : Prop where
  once : ∀ key ∈ singular, (of key).length ≤ 1
  whole : of transferEncoding = [] ∧ of expect = []
  empty : ∀ length ∈ of contentLength, length ≠ [] ∧ (∀ b ∈ length, b = 48) ∧ tooLong limit length = false

-- A request as it may be written.
structure Asked (limit : Option Nat) where
  method : Bytes
  target : Bytes
  version : Bytes
  fields : List Field
  known : method = methodGet ∨ method = methodHead
  versioned : version ∈ versions
  rooted : [slash] <+: target ∧ ¬ [slash,slash] <+: target
  clear : isAscii target = true ∧ hash ∉ target ∧ blank ∉ target ∧ lf ∉ target
  short : (method ++ blank :: (target ++ blank :: version)).length + 2 ≤ maxRequestLineBytes
  bodiless : Bodiless limit (valuesOf fields)

def Asked.start (q : Asked limit) : Bytes := q.method ++ blank :: (q.target ++ blank :: q.version)
def Asked.head (q : Asked limit) : Bytes := Pairs.join cr lf (q.start :: q.fields.map Field.line)

-- What is read of it: the values of each name, in whatever case it is written, in order.
structure Carries (q : Asked limit) (r : Request) : Prop where
  method : r.method = q.method
  target : r.target = q.target
  values : ∀ key, values r.headers key = valuesOf q.fields key
  present : ∀ key, (r.headers.get key).isSome = true ↔ valuesOf q.fields key ≠ []

section Fields

theorem sign_token (inside : b ∈ [colon,lf,cr,0,32,9]) : isToken b = false := by
  have all : ([colon,lf,cr,0,32,9].all fun b => !isToken b) = true := by decide
  simpa using List.all_eq_true.mp all b inside

theorem name_clear (named : isName t = true) (inside : b ∈ [colon,lf,cr,0,32,9]) : b ∉ t := by
  intro within
  have all := List.all_eq_true.mp (Bool.and_eq_true_iff.mp named).2 b within
  rw [sign_token inside] at all
  cases all

theorem name_some (named : isName t = true) : t ≠ [] := by
  rintro rfl
  cases named

theorem pad_sign (padded : isPad b = true) : b = 32 ∨ b = 9 := by simpa [isPad] using padded

theorem plain_clear {value : Bytes} (plain : value.any isControl = false) (inside : b ∈ [lf,cr,0]) : b ∉ value := by
  have control : [lf,cr,0].all isControl = true := by decide
  exact fun within => List.any_eq_false.mp plain b within (List.all_eq_true.mp control b inside)

variable {f : Field}

theorem line_clear (f : Field) (inside : b ∈ [lf,cr,0]) : b ∉ f.line := by
  have signs : b ∈ [colon,lf,cr,0,32,9] ∧ b ≠ colon ∧ b ≠ 32 ∧ b ≠ 9 := by
    simp only [List.mem_cons,List.not_mem_nil,or_false] at inside
    rcases inside with rfl | rfl | rfl <;> decide
  obtain ⟨signs,apart⟩ := signs
  intro within
  simp only [Field.line,List.mem_append,List.mem_cons] at within
  rcases within with name | sign | (before | value) | after
  · exact name_clear f.named signs name
  · exact apart.1 sign
  · exact not_or.mpr apart.2 (pad_sign (f.padded b (List.mem_append_left _ before)))
  · exact plain_clear f.plain inside value
  · exact not_or.mpr apart.2 (pad_sign (f.padded b (List.mem_append_right _ after)))

theorem line_some (f : Field) : f.line ≠ [] := by simp [Field.line]

theorem line_colon (f : Field) : Lines.nextLine colon f.line = some (f.name,f.before ++ f.value ++ f.after) :=
  Lines.nextLine_line _ _ (name_clear f.named (by decide))

theorem line_begins (f : Field) (inside : b ∈ [colon,lf,cr,0,32,9]) : ¬ [b] <+: f.line := by
  obtain ⟨c,name,own⟩ := List.exists_cons_of_ne_nil (name_some f.named)
  rw [Field.line,own,List.cons_append,List.cons_prefix_cons]
  rintro ⟨rfl,_⟩
  exact name_clear f.named inside (own ▸ List.mem_cons_self)

theorem headerLine_written (headOnly : Bool) (f : Field) : headerLine headOnly f.line = .ok (f.key,f.value) := by
  have fits : ¬ (f.line = [] ∨ [32] <+: f.line ∨ [9] <+: f.line ∨ colon ∉ f.line ∨ 0 ∈ f.line) := by
    rintro (none' | padded | tabbed | uncut | zero)
    · exact line_some f none'
    · exact line_begins f (by decide) padded
    · exact line_begins f (by decide) tabbed
    · exact uncut (by simp [Field.line])
    · exact line_clear f (by decide) zero
  unfold headerLine
  rw [if_neg fits,line_colon]
  simp only [f.named,Words.strip_padded f.padded f.tight,f.plain]
  rfl

theorem headerLine_read (read : headerLine headOnly line = .ok (key,value)) : ∃ f : Field, line = f.line ∧ key = f.key ∧ value = f.value := by
  unfold headerLine at read
  split at read
  · cases read
  · cases next : Lines.nextLine colon line with
    | none => rw [next] at read; cases read
    | some found =>
      obtain ⟨name,rest⟩ := found
      rw [next] at read
      simp only at read
      split at read
      · cases read
      · rename_i named
        split at read
        · cases read
        · rename_i plain
          cases read
          obtain ⟨before,after,own,padded⟩ := @Words.strip_parts _ isPad rest
          refine ⟨⟨name,before,Words.strip isPad rest,after,by simpa using named,padded,Words.strip_settled rest,by simpa using plain⟩,?_,rfl,rfl⟩
          rw [(Lines.nextLine_some next).2]
          conv => lhs; rw [own]
          rfl

def collected (parsed : Dict Bytes (List Bytes)) (fields : List Field) : Dict Bytes (List Bytes) :=
  fields.foldl (fun d f => d.set f.key (values d f.key ++ [f.value])) parsed

theorem values_set (d : Dict Bytes (List Bytes)) (k : Bytes) (vs : List Bytes) (key : Bytes) :
    values (d.set k vs) key = if key = k then vs else values d key := by
  unfold values
  rw [Dict.get_set]
  split <;> rfl

theorem collected_values (parsed : Dict Bytes (List Bytes)) (fields : List Field) (key : Bytes) :
    values (collected parsed fields) key = values parsed key ++ valuesOf fields key := by
  induction fields generalizing parsed with
  | nil => simp [collected,valuesOf]
  | cons f fields ih =>
    have step := ih (parsed.set f.key (values parsed f.key ++ [f.value]))
    rw [values_set] at step
    refine Eq.trans step ?_
    by_cases same : key = f.key
    · subst same
      simp [valuesOf]
    · simp [valuesOf,same,Ne.symm same]

theorem collected_present (parsed : Dict Bytes (List Bytes)) (fields : List Field) (key : Bytes) :
    ((collected parsed fields).get key).isSome = true ↔ (parsed.get key).isSome = true ∨ valuesOf fields key ≠ [] := by
  induction fields generalizing parsed with
  | nil => simp [collected,valuesOf]
  | cons f fields ih =>
    have step := ih (parsed.set f.key (values parsed f.key ++ [f.value]))
    rw [Dict.get_set] at step
    refine Iff.trans step ?_
    by_cases same : key = f.key
    · subst same
      simp [valuesOf]
    · simp [valuesOf,same,Ne.symm same]

theorem headerLines_written (headOnly : Bool) (parsed : Dict Bytes (List Bytes)) (fields : List Field) :
    headerLines headOnly parsed (fields.map Field.line) = .ok (collected parsed fields) := by
  induction fields generalizing parsed with
  | nil => rfl
  | cons f fields ih =>
    rw [List.map_cons,headerLines,headerLine_written]
    exact ih _

theorem headerLines_read (read : headerLines headOnly parsed lines = .ok headers) :
    ∃ fields : List Field, lines = fields.map Field.line ∧ headers = collected parsed fields := by
  induction lines generalizing parsed with
  | nil =>
    cases read
    exact ⟨[],rfl,rfl⟩
  | cons line lines ih =>
    rw [headerLines] at read
    cases one : headerLine headOnly line with
    | error fault => rw [one] at read; cases read
    | ok found =>
      obtain ⟨key,value⟩ := found
      rw [one] at read
      obtain ⟨f,rfl,rfl,rfl⟩ := headerLine_read one
      obtain ⟨fields,rfl,own⟩ := ih read
      exact ⟨f :: fields,rfl,own⟩

end Fields

section Start

theorem version_clear (versioned : version ∈ versions) : version ≠ [] ∧ isAscii version = true ∧ blank ∉ version ∧ lf ∉ version := by
  have all : ∀ v ∈ versions, v ≠ [] ∧ isAscii v = true ∧ blank ∉ v ∧ lf ∉ v := by decide
  exact all version versioned

theorem name_blank (named : isName t = true) : blank ∉ t := name_clear named (by decide)

theorem startLine_written (named : isName method = true) (versioned : version ∈ versions)
    (rooted : [slash] <+: target ∧ ¬ [slash,slash] <+: target)
    (clear : isAscii target = true ∧ hash ∉ target ∧ blank ∉ target)
    (short : (method ++ blank :: (target ++ blank :: version)).length + 2 ≤ maxRequestLineBytes) :
    startLine (method ++ blank :: (target ++ blank :: version)) = .ok (method,target) := by
  obtain ⟨some',plain,solid,_⟩ := version_clear versioned
  have parts : (method ++ blank :: (target ++ blank :: version)).splitOn blank = [method,target,version] := by
    rw [List.splitOn_append_cons_self_of_not_mem (name_blank named),List.splitOn_append_cons_self_of_not_mem clear.2.2,
      List.splitOn_eq_singleton solid]
  have target_some : target ≠ [] := by
    rintro rfl
    cases List.prefix_nil.mp rooted.1
  unfold startLine
  rw [if_neg (by omega),parts]
  simp [name_some named,target_some,some',named,clear.1,plain,versioned,rooted,clear.2.1]

theorem startLine_read (read : startLine line = .ok (method,target)) : ∃ version, line = method ++ blank :: (target ++ blank :: version) ∧
    isName method = true ∧ version ∈ versions ∧ ([slash] <+: target ∧ ¬ [slash,slash] <+: target) ∧
    (isAscii target = true ∧ hash ∉ target ∧ blank ∉ target) ∧ line.length + 2 ≤ maxRequestLineBytes := by
  have whole : [blank].intercalate (line.splitOn blank) = line := List.intercalate_splitOn blank
  have clean := Words.splitOn_clean blank line
  unfold startLine at read
  split at read
  · cases read
  · rename_i short
    split at read
    · rename_i method' target' version parts
      rw [parts] at whole clean
      simp only at read
      split at read
      · cases read
      · rename_i named
        split at read
        · cases read
        · rename_i plain
          split at read
          · cases read
          · rename_i versioned
            split at read
            · cases read
            · rename_i rooted
              cases read
              simp only [not_or,Bool.not_eq_false,not_not] at named plain versioned rooted
              refine ⟨version,?_,named.2.2.2,versioned,⟨rooted.1,rooted.2.1⟩,⟨plain.1,rooted.2.2,clean target (by simp)⟩,by omega⟩
              rw [← whole]
              simp [List.intercalate]
    · cases read

end Start

section Framing

theorem number_zero (digits : Bytes) (each : digits.all isDigit = true) (n : Nat) :
    digits.foldl (fun n b => 10 * n + (b.toNat - 48)) n = 0 ↔ n = 0 ∧ ∀ b ∈ digits, b = 48 := by
  induction digits generalizing n with
  | nil => simp
  | cons b digits ih =>
    rw [List.all_cons,Bool.and_eq_true_iff] at each
    have least : 48 ≤ b.toNat := by
      have := each.1
      simp only [isDigit,Bool.and_eq_true,decide_eq_true_eq] at this
      exact UInt8.le_iff_toNat_le.mp this.1
    have naught : b = 48 ↔ b.toNat = 48 := by
      rw [← UInt8.toNat_inj]
      rfl
    have first : 10 * n + (b.toNat - 48) = 0 ↔ n = 0 ∧ b.toNat = 48 := by omega
    rw [List.foldl_cons,ih each.2,List.forall_mem_cons,naught,first,and_assoc]

theorem framing_exact (limit : Option Nat) (headOnly : Bool) (headers : Dict Bytes (List Bytes))
    (present : ∀ key, (headers.get key).isSome = true ↔ values headers key ≠ []) :
    framing limit headOnly headers = .ok () ↔ Bodiless limit (values headers) := by
  have gone : ∀ key, ¬ (headers.get key).isSome = true ↔ values headers key = [] := fun key => by
    rw [present key,not_not]
  unfold framing
  by_cases twice : ∃ key ∈ singular, 1 < (values headers key).length
  · rw [if_pos twice]
    obtain ⟨key,inside,many⟩ := twice
    refine ⟨nofun,fun bodiless => ?_⟩
    have := bodiless.once key inside
    omega
  rw [if_neg twice]
  have once : ∀ key ∈ singular, (values headers key).length ≤ 1 := by
    intro key inside
    by_contra more
    exact twice ⟨key,inside,by omega⟩
  by_cases encoded : (headers.get transferEncoding).isSome = true
  · rw [if_pos encoded]
    exact ⟨nofun,fun bodiless => absurd bodiless.whole.1 ((present _).mp encoded)⟩
  by_cases expects : (headers.get expect).isSome = true
  · rw [if_neg encoded,if_pos expects]
    exact ⟨nofun,fun bodiless => absurd bodiless.whole.2 ((present _).mp expects)⟩
  rw [if_neg encoded,if_neg expects]
  have whole := And.intro ((gone _).mp encoded) ((gone _).mp expects)
  cases lengths : values headers contentLength with
  | nil => exact ⟨fun _ => ⟨once,whole,by simp [lengths]⟩,fun _ => rfl⟩
  | cons length more =>
    have single : more = [] := by
      have := once contentLength (by decide)
      rw [lengths,List.length_cons] at this
      exact List.eq_nil_of_length_eq_zero (by omega)
    subst single
    have digit : ∀ b : UInt8, b = 48 → isDigit b = true := by rintro b rfl; rfl
    have fits : Bodiless limit (values headers) ↔ length ≠ [] ∧ (∀ b ∈ length, b = 48) ∧ tooLong limit length = false :=
      ⟨fun bodiless => bodiless.empty length (by simp [lengths]),fun own => ⟨once,whole,by simpa [lengths] using own⟩⟩
    rw [fits]
    simp only
    split
    · rename_i wrong
      refine ⟨nofun,fun own => ?_⟩
      have figures : length.all isDigit = true := List.all_eq_true.mpr fun b inside => digit b (own.2.1 b inside)
      rw [figures] at wrong
      exact absurd (wrong.resolve_right nofun) own.1
    · rename_i figures
      rw [not_or,Bool.not_eq_false] at figures
      have naught := number_zero length figures.2 0
      rw [eq_self,true_and] at naught
      split
      · rename_i lengthy
        exact ⟨nofun,fun own => absurd own.2.2 (by rw [lengthy]; nofun)⟩
      · rename_i short
        split
        · rename_i more
          exact ⟨nofun,fun own => absurd (naught.mpr own.2.1) more⟩
        · rename_i none'
          exact ⟨fun _ => ⟨figures.1,naught.mp (not_not.mp none'),by simpa using short⟩,fun _ => rfl⟩

end Framing

variable {limit : Option Nat}

theorem values_present (headers : List Field) (key : Bytes) :
    ((collected Dict.empty headers).get key).isSome = true ↔ values (collected Dict.empty headers) key ≠ [] := by
  rw [collected_present,collected_values]
  simp [values,Dict.get_empty]

theorem collected_exact (fields : List Field) : values (collected Dict.empty fields) = valuesOf fields := by
  funext key
  rw [collected_values]
  simp [values,Dict.get_empty]

theorem method_named (q : Asked limit) : isName q.method = true := by
  rcases q.known with own | own <;> rw [own] <;> decide

theorem start_clear (q : Asked limit) : lf ∉ q.start := by
  have version := (version_clear q.versioned).2.2.2
  simp only [Asked.start,List.mem_append,List.mem_cons,not_or]
  exact ⟨name_clear (method_named q) (by decide),by decide,q.clear.2.2.2,by decide,version⟩

theorem lines_clear (q : Asked limit) : ∀ line ∈ q.start :: q.fields.map Field.line, lf ∉ line ∧ line ≠ [] := by
  refine List.forall_mem_cons.mpr ⟨⟨start_clear q,by simp [Asked.start]⟩,?_⟩
  intro line inside
  obtain ⟨f,_,rfl⟩ := List.mem_map.mp inside
  exact ⟨line_clear f (by decide),line_some f⟩

theorem parseHead_written (q : Asked limit) : ∃ r, parseHead limit q.head = .ok r ∧ Carries q r := by
  have cut : Pairs.cut cr lf q.head = q.start :: q.fields.map Field.line :=
    Pairs.cut_join (by decide) (fun line inside => (lines_clear q line inside).1) (List.cons_ne_nil _ _)
  have start : startLine q.start = .ok (q.method,q.target) :=
    startLine_written (method_named q) q.versioned q.rooted ⟨q.clear.1,q.clear.2.1,q.clear.2.2.1⟩ q.short
  have framed : framing limit (decide (q.method = methodHead)) (collected Dict.empty q.fields) = .ok () := by
    rw [framing_exact limit _ _ (values_present q.fields),collected_exact]
    exact q.bodiless
  refine ⟨⟨q.method,q.target,collected Dict.empty q.fields⟩,?_,rfl,rfl,fun key => congrFun (collected_exact q.fields) key,?_⟩
  · unfold parseHead
    rw [cut]
    simp only [start,headerLines_written,framed]
    exact if_pos q.known
  · intro key
    rw [values_present,collected_exact]

theorem parseHead_read (read : parseHead limit head = .ok r) (clear : ∀ line ∈ (Pairs.cut cr lf head).head?, lf ∉ line) :
    ∃ q : Asked limit, head = q.head ∧ Carries q r := by
  have whole := Pairs.join_cut (a := cr) (z := lf) head
  unfold parseHead at read
  cases cut : Pairs.cut cr lf head with
  | nil => rw [cut] at read; cases read
  | cons first lines =>
    rw [cut] at read clear whole
    simp only at read
    cases start : startLine first with
    | error fault => rw [start] at read; cases read
    | ok line =>
      obtain ⟨method,target⟩ := line
      obtain ⟨version,rfl,named,versioned,rooted,plain,short⟩ := startLine_read start
      simp only [start] at read
      cases headed : headerLines (decide (method = methodHead)) Dict.empty lines with
      | error fault => rw [headed] at read; cases read
      | ok headers =>
        obtain ⟨fields,rfl,rfl⟩ := headerLines_read headed
        simp only [headed] at read
        cases framed : framing limit (decide (method = methodHead)) (collected Dict.empty fields) with
        | error fault => rw [framed] at read; cases read
        | ok _ =>
          have bodiless := (framing_exact limit _ _ (values_present fields)).mp framed
          rw [collected_exact] at bodiless
          simp only [framed] at read
          split at read
          · rename_i known
            cases read
            have feed : lf ∉ target := fun inside =>
              clear _ rfl (List.mem_append_right _ (List.mem_cons_of_mem _ (List.mem_append_left _ inside)))
            refine ⟨⟨method,target,version,fields,known,versioned,rooted,⟨plain.1,plain.2.1,plain.2.2,feed⟩,short,bodiless⟩,whole.symm,?_⟩
            refine ⟨rfl,rfl,fun key => congrFun (collected_exact fields) key,?_⟩
            intro key
            rw [values_present,collected_exact]
          · cases read

end AgentSideCar.Http
