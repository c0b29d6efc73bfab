import AgentSideCar.Library.Dict
import AgentSideCar.Library.Loads
import AgentSideCar.Library.Stable
import AgentSideCar.Library.Utf8
import Mathlib.Algebra.Order.BigOperators.Group.List
import Mathlib.Algebra.Order.Ring.Nat
import Mathlib.Data.List.Lex
import Mathlib.Data.List.Infix

namespace AgentSideCar.Zipapp
open Loads (Text str)
open Stable

abbrev Bytes := List UInt8

-- What building raises: a ValueError, or what zipfile raises as it writes.
inductive BuildError where
  | valueError
  | zipfile
  deriving DecidableEq

def maxArtifactBytes : Nat := 4 * 1024 * 1024
def maxArchiveMembers : Nat := 2048
def maxSourceMembers : Nat := 512
def maxSourceNameBytes : Nat := 1024

def rootMain : Bytes :=
  (str ("\"\"\"Zipapp entry point for agent-sidecar.\"\"\"\nfrom sidecar.cli import main\n\n" ++
    "if __name__ == \"__main__\":\n    raise SystemExit(main())\n")).map Nat.toUInt8

def mainName : Text := str "__main__.py"

def filesystemRequiredMembers : List Text := ["sidecar/__init__.py","sidecar/cli.py"].map str
def archiveRequiredMembers : List Text := ["sidecar/__init__.py","sidecar/cli.py","sidecar/remote_transport.py"].map str

structure ZipInfo where
  filename : Text
  externalAttr : Nat
  createSystem : Nat
  flagBits : Nat
  compressType : Nat
  fileSize : Nat
  compressSize : Nat
  deriving DecidableEq

-- zipfile: the bytes of an archive, none where writing raises; and the members of an archive,
-- each with what reading it gives, none where reading raises.
structure Zipfile where
  write : List (ZipInfo × Bytes) → Option Bytes
  infolist : Bytes → Option (List (ZipInfo × Bytes))

-- The kinds of a file mode: none, and a regular file.
def fileKind (mode : Nat) : Nat := mode / 4096 % 16
def regularKind : Nat := 8
def storedMode : Nat := 33188

def zipInfo (name : Text) : ZipInfo := ⟨name,storedMode * 65536,3,0,0,0,0⟩

-- The parts of a resolved path to a Python file.
structure PythonPath (parts : List Text) : Prop where
  plain : ∀ part ∈ parts, part ≠ [] ∧ part ≠ str "." ∧ part ≠ str ".." ∧ 47 ∉ part ∧ 0 ∉ part
  python : ∃ last, parts.getLast? = some last ∧ str ".py" <:+ last

-- What the walk finds: whether it is a file and no link, the path it resolves to under the root
-- (none where it leaves the root), and what it holds.
structure Source where
  regular : Bool
  relative : Option (List Text)
  data : Bytes
  path : ∀ parts, relative = some parts → PythonPath parts

-- A package source tree: whether the package is a directory and no link, and its Python files in
-- the order of their paths.
structure Tree where
  package : Bool
  sources : List Source

def asPosix (parts : List Text) : Text := [47].intercalate parts

def startMembers : Dict Text Bytes := Dict.empty.set mainName rootMain

-- A refusal, none, is a ValueError here and in what follows.
def sourceLoop : List Source → Dict Text Bytes → Option (Dict Text Bytes)
  | [],members => some members
  | source :: rest,members =>
    if !source.regular then sourceLoop rest members
    else match source.relative with
      | none => none
      | some parts =>
        if str "__pycache__" ∈ parts ∨ ¬ str "sidecar/" <+: asPosix parts then sourceLoop rest members
        else if maxArtifactBytes < source.data.length then none
        else sourceLoop rest (members.set (asPosix parts) source.data)

def holds (required : List Text) (members : Dict Text Bytes) : Bool := required.all (· ∈ members.keys)

def sourceMembers (tree : Tree) : Option (Dict Text Bytes) :=
  if !tree.package then none
  else (sourceLoop tree.sources startMembers).filter (holds filesystemRequiredMembers)

def canonicalParts (parts : List Text) : Bool :=
  2 ≤ parts.length && parts.head? = some (str "sidecar") && parts.all (fun part => part ∉ [[],str ".",str ".."]) &&
    parts.getLast?.any fun last => decide (str ".py" <:+ last) && last ≠ str ".py"

def canonicalSourceMember (name : Text) : Bool :=
  name ≠ [] && 0 ∉ name && 92 ∉ name && (Utf8.encode name).any (·.length ≤ maxSourceNameBytes) && canonicalParts (name.splitOn 47)

def isDir (info : ZipInfo) : Bool := info.filename.getLast? = some 47

def invalid (info : ZipInfo) : Bool :=
  isDir info || info.createSystem ∉ [0,3] ||
    info.createSystem = 3 && fileKind (info.externalAttr / 65536) ∉ [0,regularKind] ||
    info.flagBits % 2 = 1 || info.compressType ∉ [0,8]

def archiveLoop : List (ZipInfo × Bytes) → Nat → Dict Text Bytes → Nat → Option (Dict Text Bytes)
  | [],_,members,_ => some members
  | (info,content) :: rest,sourceCount,members,sourceBytes =>
    let name := info.filename
    if !canonicalSourceMember name then
      if str "sidecar\\" <+: name ∨ str "sidecar/" <+: name ∧ str ".py" <:+ name then none
      else archiveLoop rest sourceCount members sourceBytes
    else if maxSourceMembers < sourceCount + 1 ∨ name ∈ members.keys then none
    else if invalid info then none
    else
      let remaining := maxArtifactBytes - sourceBytes
      if remaining < info.fileSize then none
      else
        let data := content.take (remaining + 1)
        if data.length ≠ info.fileSize ∨ remaining < data.length then none
        else archiveLoop rest (sourceCount + 1) (members.set name data) (sourceBytes + data.length)

-- An archive's file: whether it is a regular one, and its content.
structure ArchiveFile where
  regular : Bool
  content : Bytes

section Building
variable (z : Zipfile)

def archiveSourceMembers (file : ArchiveFile) : Option (Dict Text Bytes) :=
  if !file.regular || file.content = [] || maxArtifactBytes < file.content.length then none
  else match z.infolist file.content with
    | none => none
    | some infos =>
      if maxArchiveMembers < infos.length then none
      else (archiveLoop infos 0 startMembers rootMain.length).filter (holds archiveRequiredMembers)

-- Where the sources come from: a directory, or the archive the module was imported from.
inductive Origin where
  | tree (tree : Tree)
  | archive (file : ArchiveFile)

def membersOf : Origin → Option (Dict Text Bytes)
  | .tree tree => sourceMembers tree
  | .archive file => archiveSourceMembers z file

def sortedMembers (members : Dict Text Bytes) : List (Text × Bytes) := sortBy Prod.fst members.entries

def buildZipappBytes (origin : Origin) : Except BuildError Bytes :=
  match membersOf z origin with
  | none => .error .valueError
  | some members =>
    match z.write ((sortedMembers members).map fun member => (zipInfo member.1,member.2)) with
    | none => .error .zipfile
    | some artifact => if artifact = [] ∨ maxArtifactBytes < artifact.length then .error .valueError else .ok artifact

end Building

section Names
variable {name : Text} {parts : List Text}

-- A name as the walk gives it: a path to a Python file in the package.
def SourceName (name : Text) : Prop := str "sidecar/" <+: name ∧ ∃ parts, PythonPath parts ∧ name = asPosix parts

-- A name the archive reader takes: no backslash, not too long, and more than a suffix as its last part.
structure Portable (name : Text) : Prop where
  slashes : 92 ∉ name
  short : (Utf8.encode name).any (·.length ≤ maxSourceNameBytes) = true
  titled : (name.splitOn 47).getLast? ≠ some (str ".py")

theorem PythonPath.some_part (path : PythonPath parts) : parts ≠ [] := by
  rintro rfl
  obtain ⟨last,found,_⟩ := path.python
  cases found

theorem PythonPath.split (path : PythonPath parts) : (asPosix parts).splitOn 47 = parts :=
  List.splitOn_intercalate 47 (fun part inside => (path.plain part inside).2.2.2.1) path.some_part

theorem intercalate_mem (inside : c ∈ [47].intercalate parts) : c = 47 ∨ ∃ part ∈ parts, c ∈ part := by
  induction parts with
  | nil => cases inside
  | cons part rest ih =>
    cases rest with
    | nil => exact .inr ⟨part,List.mem_cons_self,by simpa using inside⟩
    | cons next rest =>
      rw [List.intercalate_cons_cons,List.append_assoc] at inside
      rcases List.mem_append.mp inside with here | later
      · exact .inr ⟨part,List.mem_cons_self,here⟩
      · rcases List.mem_append.mp later with slash | rest
        · exact .inl (List.mem_singleton.mp slash)
        · rcases ih rest with slash | ⟨other,among,here⟩
          · exact .inl slash
          · exact .inr ⟨other,List.mem_cons_of_mem _ among,here⟩

theorem last_suffix (found : parts.getLast? = some last) : last <:+ [47].intercalate parts := by
  induction parts with
  | nil => cases found
  | cons part rest ih =>
    cases rest with
    | nil =>
      cases found
      simp
    | cons next rest =>
      rw [List.getLast?_cons_cons] at found
      rw [List.intercalate_cons_cons]
      exact (ih found).trans (List.suffix_append _ _)

theorem SourceName.python (source : SourceName name) : str ".py" <:+ name := by
  obtain ⟨_,parts,path,rfl⟩ := source
  obtain ⟨last,found,suffix⟩ := path.python
  exact suffix.trans (last_suffix found)

theorem SourceName.package (source : SourceName name) : 2 ≤ (name.splitOn 47).length ∧ (name.splitOn 47).head? = some (str "sidecar") := by
  obtain ⟨⟨rest,rfl⟩,_⟩ := source
  have apart : 47 ∉ str "sidecar" := by decide
  have first : (str "sidecar/" ++ rest).splitOn 47 = str "sidecar" :: rest.splitOn 47 :=
    List.splitOn_append_cons_self_of_not_mem apart rest
  rw [first]
  exact ⟨Nat.succ_le_succ (List.length_pos_iff.mpr (List.splitOn_ne_nil _ _)),rfl⟩

theorem SourceName.apart (source : SourceName name) : name ≠ mainName := by
  rintro rfl
  exact absurd source.1 (by decide)

theorem canonicalParts_path (path : PythonPath parts) (long : 2 ≤ parts.length) (head : parts.head? = some (str "sidecar")) :
    canonicalParts parts = true ↔ parts.getLast? ≠ some (str ".py") := by
  obtain ⟨last,found,python⟩ := path.python
  have plain : (parts.all fun part => decide (part ∉ [[],str ".",str ".."])) = true := by
    refine List.all_eq_true.mpr fun part among => ?_
    obtain ⟨full,one,two,_⟩ := path.plain part among
    simp [full,one,two]
  rw [canonicalParts,plain,head,found]
  simp [long,python]

theorem canonical_portable (source : SourceName name) : canonicalSourceMember name = true ↔ Portable name := by
  obtain ⟨long,head⟩ := source.package
  obtain ⟨⟨rest,begun⟩,parts,path,rfl⟩ := id source
  rw [path.split] at long head
  have some' : asPosix parts ≠ [] := begun ▸ List.cons_ne_nil _ _
  have noZero : 0 ∉ asPosix parts := by
    intro inside
    rcases intercalate_mem inside with slash | ⟨part,among,here⟩
    · cases slash
    · exact (path.plain part among).2.2.2.2 here
  have parted := canonicalParts_path path long head
  unfold canonicalSourceMember
  rw [path.split]
  simp only [Bool.and_eq_true,decide_eq_true_eq,parted]
  constructor
  · rintro ⟨⟨⟨_,slashes⟩,short⟩,titled⟩
    exact ⟨slashes,short,by rwa [path.split]⟩
  · intro portable
    exact ⟨⟨⟨⟨some',noZero⟩,portable.slashes⟩,portable.short⟩,path.split ▸ portable.titled⟩

theorem mainName_passed : canonicalSourceMember mainName = false ∧
    ¬ (str "sidecar\\" <+: mainName ∨ str "sidecar/" <+: mainName ∧ str ".py" <:+ mainName) := by
  constructor <;> decide

end Names

section Walking
variable {members : Dict Text Bytes}

-- What the walk gathers: the root's own member, and files under source names.
structure Members (members : Dict Text Bytes) : Prop where
  main : members.get mainName = some rootMain
  named : ∀ name ∈ members.keys, name = mainName ∨ SourceName name

theorem keys_set (d : Dict Text Bytes) : name ∈ (d.set key data).keys ↔ name = key ∨ name ∈ d.keys := by
  rw [Dict.mem_keys,Dict.get_set,Dict.mem_keys]
  by_cases same : name = key <;> simp [same]

theorem start_members : Members startMembers := by
  refine ⟨by rw [startMembers,Dict.get_set,if_pos rfl],fun name inside => ?_⟩
  rcases (keys_set _).mp inside with main | never
  · exact .inl main
  · cases never

theorem sourceLoop_members (sources : List Source) (before : Members members) (walked : sourceLoop sources members = some after) :
    Members after := by
  induction sources generalizing members with
  | nil =>
    cases walked
    exact before
  | cons source rest ih =>
    rw [sourceLoop] at walked
    split at walked
    · exact ih before walked
    · cases relative : source.relative with
      | none =>
        rw [relative] at walked
        cases walked
      | some parts =>
        rw [relative] at walked
        dsimp only at walked
        split at walked
        · exact ih before walked
        · rename_i ours
          push Not at ours
          split at walked
          · cases walked
          · have source : SourceName (asPosix parts) := ⟨ours.2,parts,source.path parts relative,rfl⟩
            refine ih ⟨?_,fun name inside => ?_⟩ walked
            · rw [Dict.get_set,if_neg source.apart.symm]
              exact before.main
            · rcases (keys_set _).mp inside with rfl | old
              · exact .inr source
              · exact before.named name old

theorem sourceMembers_members (found : sourceMembers tree = some members) :
    Members members ∧ holds filesystemRequiredMembers members = true := by
  rw [sourceMembers] at found
  split at found
  · cases found
  · obtain ⟨walked,held⟩ := Option.filter_eq_some_iff.mp found
    exact ⟨sourceLoop_members _ start_members walked,held⟩

end Walking

section Reading
variable {members : Dict Text Bytes} {entries : List (Text × Bytes)}

def ascii (name : Text) : Bool := name.all (· < 128)

-- A member as reading shows it after it was written: the flag of a name beyond ASCII, and its sizes.
def readInfo (name : Text) (data : Bytes) : ZipInfo :=
  {zipInfo name with flagBits := if ascii name then 0 else 2048, fileSize := data.length, compressSize := data.length}

theorem readInfo_valid (python : str ".py" <:+ name) (data : Bytes) : invalid (readInfo name data) = false := by
  obtain ⟨before,rfl⟩ := python
  have plain : isDir (readInfo (before ++ str ".py") data) = false := by
    have last : (before ++ str ".py").getLast? = some 121 := List.getLast?_append_of_ne_nil _ (by decide)
    simp [isDir,readInfo,zipInfo,last]
  have even : (readInfo (before ++ str ".py") data).flagBits % 2 = 0 := by
    unfold readInfo
    dsimp only
    split <;> rfl
  unfold invalid
  rw [plain,even]
  simp [readInfo,zipInfo,fileKind,storedMode,regularKind]

def sources (entries : List (Text × Bytes)) : List (Text × Bytes) := entries.filter (·.1 ≠ mainName)

def weight (entries : List (Text × Bytes)) : Nat := (entries.map (·.2.length)).sum

-- The members of an archive that was built: names no two alike, each the root's or a source's.
structure Entries (entries : List (Text × Bytes)) : Prop where
  distinct : (entries.map Prod.fst).Nodup
  named : ∀ entry ∈ entries, entry.1 = mainName ∨ SourceName entry.1

def written (entries : List (Text × Bytes)) : List (ZipInfo × Bytes) := entries.map fun entry => (readInfo entry.1 entry.2,entry.2)

theorem Entries.tail (fine : Entries (entry :: rest)) : Entries rest :=
  ⟨(List.nodup_cons.mp fine.distinct).2,fun other inside => fine.named other (List.mem_cons_of_mem _ inside)⟩

theorem archiveLoop_main (main : entry.1 = mainName) (rest : List (Text × Bytes)) (count : Nat) (members : Dict Text Bytes) (bytes : Nat) :
    archiveLoop (written (entry :: rest)) count members bytes = archiveLoop (written rest) count members bytes := by
  obtain ⟨passed,ours⟩ := mainName_passed
  rw [written,List.map_cons,archiveLoop]
  simp only [readInfo,zipInfo,main,passed,Bool.not_false,if_true]
  rw [if_neg ours]
  rfl

theorem archiveLoop_source (source : SourceName entry.1) (rest : List (Text × Bytes)) (count : Nat) (fresh : entry.1 ∉ members.keys)
    (fits : bytes + entry.2.length ≤ maxArtifactBytes) : (Portable entry.1 ∧ count < maxSourceMembers →
      archiveLoop (written (entry :: rest)) count members bytes =
        archiveLoop (written rest) (count + 1) (members.set entry.1 entry.2) (bytes + entry.2.length)) ∧
    (¬ (Portable entry.1 ∧ count < maxSourceMembers) → archiveLoop (written (entry :: rest)) count members bytes = none) := by
  have sized : (readInfo entry.1 entry.2).fileSize = entry.2.length := rfl
  have filename : (readInfo entry.1 entry.2).filename = entry.1 := rfl
  have whole : entry.2.take (maxArtifactBytes - bytes + 1) = entry.2 := List.take_of_length_le (by omega)
  rw [written,List.map_cons,archiveLoop,filename,sized]
  by_cases portable : Portable entry.1
  · have canonical := (canonical_portable source).mpr portable
    rw [canonical]
    by_cases room : count < maxSourceMembers
    · refine ⟨fun _ => ?_,fun refused => absurd ⟨portable,room⟩ refused⟩
      have taken : ¬ (maxSourceMembers < count + 1 ∨ entry.1 ∈ members.keys) := not_or.mpr ⟨by omega,fresh⟩
      rw [if_neg (by simp),if_neg taken,readInfo_valid source.python]
      dsimp only
      rw [whole,if_neg (by simp),if_neg (by omega),if_neg (by omega)]
      rfl
    · refine ⟨fun accepted => absurd accepted.2 room,fun _ => ?_⟩
      rw [if_neg (by simp)]
      exact if_pos (.inl (by omega))
  · have refused : canonicalSourceMember entry.1 = false := by
      rw [← Bool.not_eq_true,canonical_portable source]
      exact portable
    refine ⟨fun accepted => absurd accepted.1 portable,fun _ => ?_⟩
    rw [refused]
    exact (if_pos rfl).trans (if_pos (.inr ⟨source.1,source.python⟩))

-- What the archive reader asks of the sources, after so many of them.
def Taken (count : Nat) (entries : List (Text × Bytes)) : Prop :=
  (∀ entry ∈ sources entries, Portable entry.1) ∧ count + (sources entries).length ≤ maxSourceMembers

theorem sources_main (main : entry.1 = mainName) (rest : List (Text × Bytes)) : sources (entry :: rest) = sources rest :=
  List.filter_cons_of_neg (by simp [main])

theorem sources_source (source : SourceName entry.1) (rest : List (Text × Bytes)) : sources (entry :: rest) = entry :: sources rest :=
  List.filter_cons_of_pos (by simpa using source.apart)

theorem taken_source (source : SourceName entry.1) (rest : List (Text × Bytes)) (count : Nat) :
    Taken count (entry :: rest) ↔ (Portable entry.1 ∧ count < maxSourceMembers) ∧ Taken (count + 1) rest := by
  rw [Taken,Taken,sources_source source,List.forall_mem_cons,List.length_cons]
  constructor
  · rintro ⟨⟨first,others⟩,room⟩
    exact ⟨⟨first,by omega⟩,others,by omega⟩
  · rintro ⟨⟨first,_⟩,others,room⟩
    exact ⟨⟨first,others⟩,by omega⟩

theorem archiveLoop_entries (fine : Entries entries) (count : Nat) (members : Dict Text Bytes) (bytes : Nat)
    (room : count ≤ maxSourceMembers) (fresh : ∀ entry ∈ sources entries, entry.1 ∉ members.keys)
    (fits : bytes + weight (sources entries) ≤ maxArtifactBytes) :
    (Taken count entries → ∃ after, archiveLoop (written entries) count members bytes = some after ∧
      after.entries = members.entries ++ sources entries) ∧
    (¬ Taken count entries → archiveLoop (written entries) count members bytes = none) := by
  induction entries generalizing count members bytes with
  | nil => exact ⟨fun _ => ⟨members,rfl,(List.append_nil _).symm⟩,fun refused => absurd ⟨List.forall_mem_nil _,room⟩ refused⟩
  | cons entry rest ih =>
    rcases fine.named entry List.mem_cons_self with main | source
    · rw [sources_main main] at fresh fits ⊢
      have same : Taken count (entry :: rest) ↔ Taken count rest := by rw [Taken,Taken,sources_main main]
      rw [archiveLoop_main main,same]
      exact ih fine.tail count members bytes room fresh fits
    · rw [sources_source source] at fresh fits ⊢
      rw [weight,List.map_cons,List.sum_cons] at fits
      have small : bytes + entry.2.length ≤ maxArtifactBytes := by omega
      obtain ⟨takes,refuses⟩ := archiveLoop_source source rest count (fresh entry List.mem_cons_self) small
      rw [taken_source source]
      by_cases accepted : Portable entry.1 ∧ count < maxSourceMembers
      · have absent : members.get entry.1 = none := (Dict.get_none _).mpr (fresh entry List.mem_cons_self)
        have apart : ∀ other ∈ sources rest, other.1 ∉ (members.set entry.1 entry.2).keys := by
          intro other inside old
          rcases (keys_set _).mp old with same | old
          · exact (List.nodup_cons.mp fine.distinct).1 (same ▸ List.mem_map_of_mem (List.mem_of_mem_filter inside))
          · exact fresh other (List.mem_cons_of_mem _ inside) old
        obtain ⟨later,none'⟩ := ih fine.tail (count + 1) (members.set entry.1 entry.2) (bytes + entry.2.length) accepted.2 apart
          (by rw [weight]; omega)
        rw [takes accepted]
        refine ⟨fun taken => ?_,fun refused => none' fun taken => refused ⟨accepted,taken⟩⟩
        obtain ⟨after,looped,same⟩ := later taken.2
        exact ⟨after,looped,by rw [same,Dict.set_absent _ absent,List.append_assoc,List.singleton_append]⟩
      · exact ⟨fun taken => absurd taken.1 accepted,fun _ => refuses accepted⟩

end Reading

section Rebuilding
variable {z : Zipfile} {members : Dict Text Bytes} {artifact : Bytes}

-- zipfile is faithful to the members it wrote: it reads them as they were written, and the
-- archive holds the bytes of all of them.
structure Faithful (z : Zipfile) (members : Dict Text Bytes) (artifact : Bytes) : Prop where
  reads : z.infolist artifact = some (written (sortedMembers members))
  stored : weight (sortedMembers members) ≤ artifact.length

-- What a tree must be for its archive to be built again: it has the module that builds, few
-- enough sources, and names the archive reader takes.
structure Rebuildable (members : Dict Text Bytes) : Prop where
  builder : str "sidecar/remote_transport.py" ∈ members.keys
  few : (members.keys.filter (· ≠ mainName)).length ≤ maxSourceMembers
  names : ∀ name ∈ members.keys, name ≠ mainName → Portable name

theorem sorted_perm (members : Dict Text Bytes) : (sortedMembers members).Perm members.entries := sortBy_perm _ _

theorem sorted_entries (gathered : Members members) : Entries (sortedMembers members) := by
  refine ⟨((sorted_perm members).map Prod.fst).nodup_iff.mpr members.unique,fun entry inside => ?_⟩
  exact gathered.named entry.1 (List.mem_map_of_mem ((sorted_perm members).mem_iff.mp inside))

theorem sources_perm (gathered : Members members) : ((mainName,rootMain) :: sources (sortedMembers members)).Perm members.entries := by
  have mains : (members.entries.filter fun entry => entry.1 = mainName) = [(mainName,rootMain)] := by
    rw [Dict.filter_key,gathered.main]
    rfl
  have split : ((members.entries.filter fun entry => entry.1 = mainName) ++ sources members.entries).Perm members.entries := by
    have whole := List.filter_append_perm (fun entry : Text × Bytes => decide (entry.1 = mainName)) members.entries
    simpa [sources] using whole
  have sorted : (sources (sortedMembers members)).Perm (sources members.entries) := (sorted_perm members).filter _
  rw [mains] at split
  exact (sorted.cons _).trans split

theorem sorted_same (perm : after.entries.Perm members.entries) : sortedMembers after = sortedMembers members := by
  refine sortBy_congr perm fun a ina b inb same => ?_
  exact List.inj_on_of_nodup_map after.unique ina inb same

theorem weight_sources (gathered : Members members) :
    rootMain.length + weight (sources (sortedMembers members)) = weight (sortedMembers members) := by
  have both := (((sources_perm gathered).trans (sorted_perm members).symm).map fun entry => entry.2.length).sum_eq
  simpa [weight] using both

theorem keys_sources (members : Dict Text Bytes) : (members.keys.filter (· ≠ mainName)).Perm ((sources (sortedMembers members)).map Prod.fst) := by
  have sorted : ((sources (sortedMembers members)).map Prod.fst).Perm ((sources members.entries).map Prod.fst) :=
    ((sorted_perm members).filter _).map _
  have same : (members.keys.filter (· ≠ mainName)) = (sources members.entries).map Prod.fst := by
    rw [Dict.keys,sources,List.filter_map]
    rfl
  rw [same]
  exact sorted.symm

theorem taken_rebuildable (members : Dict Text Bytes) : Taken 0 (sortedMembers members) ↔
    (∀ name ∈ members.keys, name ≠ mainName → Portable name) ∧ (members.keys.filter (· ≠ mainName)).length ≤ maxSourceMembers := by
  have perm := keys_sources members
  rw [Taken,perm.length_eq,List.length_map,Nat.zero_add]
  refine and_congr_left fun _ => ⟨fun names name inside other => ?_,fun names entry inside => ?_⟩
  · have among := perm.mem_iff.mp (List.mem_filter.mpr ⟨inside,by simpa using other⟩)
    obtain ⟨entry,there,rfl⟩ := List.mem_map.mp among
    exact names entry there
  · have among := perm.mem_iff.mpr (List.mem_map_of_mem inside)
    obtain ⟨key,other⟩ := List.mem_filter.mp among
    exact names entry.1 key (by simpa using other)

theorem holds_perm (perm : after.entries.Perm members.entries) (required : List Text) :
    holds required after = holds required members := by
  have keys (name : Text) : name ∈ after.keys ↔ name ∈ members.keys := (perm.map Prod.fst).mem_iff
  simp only [holds,keys]

theorem archiveSourceMembers_built (gathered : Members members) (required : holds filesystemRequiredMembers members = true)
    (faithful : Faithful z members artifact) (some' : artifact ≠ []) (small : artifact.length ≤ maxArtifactBytes) :
    (Rebuildable members → ∃ after, archiveSourceMembers z ⟨true,artifact⟩ = some after ∧ sortedMembers after = sortedMembers members) ∧
    (¬ Rebuildable members → archiveSourceMembers z ⟨true,artifact⟩ = none) := by
  have entries := sorted_entries gathered
  have fresh : ∀ entry ∈ sources (sortedMembers members), entry.1 ∉ startMembers.keys := by
    intro entry inside old
    rcases (keys_set _).mp old with main | never
    · exact absurd main (by simpa using (List.mem_filter.mp inside).2)
    · cases never
  have fits : rootMain.length + weight (sources (sortedMembers members)) ≤ maxArtifactBytes := by
    rw [weight_sources gathered]
    exact faithful.stored.trans small
  obtain ⟨takes,refuses⟩ := archiveLoop_entries entries 0 startMembers rootMain.length (by decide) fresh fits
  have opened : archiveSourceMembers z ⟨true,artifact⟩ = if maxArchiveMembers < (sortedMembers members).length then none
      else (archiveLoop (written (sortedMembers members)) 0 startMembers rootMain.length).filter (holds archiveRequiredMembers) := by
    rw [archiveSourceMembers,faithful.reads]
    simp [some',small,written]
  have counted : (sortedMembers members).length = 1 + (members.keys.filter (· ≠ mainName)).length := by
    rw [(keys_sources members).length_eq,List.length_map,← ((sources_perm gathered).trans (sorted_perm members).symm).length_eq,
      List.length_cons,Nat.add_comm]
  have builders : holds archiveRequiredMembers members = true ↔ str "sidecar/remote_transport.py" ∈ members.keys := by
    have more : archiveRequiredMembers = filesystemRequiredMembers ++ [str "sidecar/remote_transport.py"] := rfl
    rw [more,holds,List.all_append]
    have held := required
    rw [holds] at held
    rw [held]
    simp
  rw [opened]
  constructor
  · intro rebuildable
    obtain ⟨after,looped,same⟩ := takes ((taken_rebuildable members).mpr ⟨rebuildable.names,rebuildable.few⟩)
    have perm : after.entries.Perm members.entries := same ▸ sources_perm gathered
    have few := rebuildable.few
    refine ⟨after,?_,sorted_same perm⟩
    rw [if_neg (by rw [counted]; unfold maxArchiveMembers; unfold maxSourceMembers at few; omega),looped,Option.filter_some,
      holds_perm perm,builders.mpr rebuildable.builder]
    rfl
  · intro refused
    split
    · rfl
    · by_cases taken : Taken 0 (sortedMembers members)
      · obtain ⟨after,looped,same⟩ := takes taken
        have perm : after.entries.Perm members.entries := same ▸ sources_perm gathered
        obtain ⟨names,few⟩ := (taken_rebuildable members).mp taken
        have missing : holds archiveRequiredMembers members = false := by
          rw [← Bool.not_eq_true,builders]
          exact fun builder => refused ⟨builder,few,names⟩
        rw [looped,Option.filter_some,holds_perm perm,missing]
        rfl
      · rw [refuses taken]
        rfl

-- Building again from a built archive gives the same bytes, or a ValueError where the archive
-- reader asks more of the sources than the walk did.
theorem rebuilt_exact (found : sourceMembers tree = some members) (built : buildZipappBytes z (.tree tree) = .ok artifact)
    (faithful : Faithful z members artifact) :
    (buildZipappBytes z (.archive ⟨true,artifact⟩) = .ok artifact ↔ Rebuildable members) ∧
    (¬ Rebuildable members → buildZipappBytes z (.archive ⟨true,artifact⟩) = .error .valueError) := by
  obtain ⟨gathered,required⟩ := sourceMembers_members found
  have walked : membersOf z (.tree tree) = some members := found
  have again (after : Dict Text Bytes) (read : archiveSourceMembers z ⟨true,artifact⟩ = some after)
      (same : sortedMembers after = sortedMembers members) : buildZipappBytes z (.archive ⟨true,artifact⟩) = .ok artifact := by
    have there : membersOf z (.archive ⟨true,artifact⟩) = some after := read
    rw [buildZipappBytes,walked] at built
    rw [buildZipappBytes,there]
    dsimp only
    rw [same]
    exact built
  have fine : artifact ≠ [] ∧ artifact.length ≤ maxArtifactBytes := by
    rw [buildZipappBytes,walked] at built
    dsimp only at built
    split at built
    · cases built
    · split at built
      · cases built
      · rename_i sized
        cases built
        exact ⟨fun empty => sized (.inl empty),not_lt.mp fun long => sized (.inr long)⟩
  obtain ⟨takes,refuses⟩ := archiveSourceMembers_built gathered required faithful fine.1 fine.2
  have refused (not : ¬ Rebuildable members) : buildZipappBytes z (.archive ⟨true,artifact⟩) = .error .valueError := by
    have none' : membersOf z (.archive ⟨true,artifact⟩) = none := refuses not
    rw [buildZipappBytes,none']
  refine ⟨⟨fun same => ?_,fun rebuildable => ?_⟩,refused⟩
  · by_contra not
    rw [refused not] at same
    cases same
  · obtain ⟨after,read,same⟩ := takes rebuildable
    exact again after read same

end Rebuilding

section Stored

-- A stored archive of members with ASCII names: local entries, the directory, and its end.
def little (size n : Nat) : Bytes := (List.range size).map fun i => (n / 256 ^ i).toUInt8

def crcBit (crc : Nat) : Nat := if crc % 2 = 1 then crc / 2 ^^^ 3988292384 else crc / 2

def crc32 (data : Bytes) : Nat := data.foldl (fun crc b => crcBit^[8] (crc ^^^ b.toNat)) 4294967295 ^^^ 4294967295

def nameBytes (member : ZipInfo × Bytes) : Bytes := member.1.filename.map Nat.toUInt8

def header (member : ZipInfo × Bytes) : Bytes :=
  little 2 20 ++ little 2 0 ++ little 2 member.1.compressType ++ little 2 0 ++ little 2 33 ++ little 4 (crc32 member.2) ++
    little 4 member.2.length ++ little 4 member.2.length ++ little 2 (nameBytes member).length ++ little 2 0

def localEntry (member : ZipInfo × Bytes) : Bytes := [80,75,3,4] ++ header member ++ nameBytes member ++ member.2

def directory : Nat → List (ZipInfo × Bytes) → Bytes
  | _,[] => []
  | offset,member :: rest =>
    [80,75,1,2,20] ++ little 1 member.1.createSystem ++ header member ++ little 2 0 ++ little 2 0 ++ little 2 0 ++
      little 4 member.1.externalAttr ++ little 4 offset ++ nameBytes member ++ directory (offset + (localEntry member).length) rest

def storedArchive (members : List (ZipInfo × Bytes)) : Bytes :=
  let entries := members.flatMap localEntry
  entries ++ directory 0 members ++ [80,75,5,6] ++ little 2 0 ++ little 2 0 ++ little 2 members.length ++ little 2 members.length ++
    little 4 (directory 0 members).length ++ little 4 entries.length ++ little 2 0

-- zipfile on one list of members.
def zipfileOf (entries : List (Text × Bytes)) : Zipfile where
  write := fun members => if members = entries.map (fun member => (zipInfo member.1,member.2)) then some (storedArchive members) else none
  infolist := fun archive =>
    if archive = storedArchive (entries.map fun member => (zipInfo member.1,member.2)) then some (written entries) else none

def fileIn (file : String) (fine : PythonPath [str "sidecar",str file]) (content : String) : Source :=
  ⟨true,some [str "sidecar",str file],(str content).map Nat.toUInt8,fun _ same => Option.some.inj same ▸ fine⟩

def demoTree (more : List Source) : Tree :=
  ⟨true,more ++ [fileIn "__init__.py" ⟨by decide,_,rfl,by decide⟩ "",fileIn "cli.py" ⟨by decide,_,rfl,by decide⟩ "def main(): pass\n",
    fileIn "remote_transport.py" ⟨by decide,_,rfl,by decide⟩ "import io\n"]⟩

def demoEntries (more : List (Text × Bytes)) : List (Text × Bytes) :=
  (mainName,rootMain) :: more ++ [(str "sidecar/__init__.py",[]),(str "sidecar/cli.py",(str "def main(): pass\n").map Nat.toUInt8),
    (str "sidecar/remote_transport.py",(str "import io\n").map Nat.toUInt8)]

theorem little_length (size n : Nat) : (little size n).length = size := by simp [little]

theorem localEntry_length (member : ZipInfo × Bytes) :
    (localEntry member).length = 30 + member.1.filename.length + member.2.length := by
  simp only [localEntry,header,nameBytes,List.length_append,little_length,List.length_cons,List.length_nil,List.length_map]

theorem storedArchive_length (members : List (ZipInfo × Bytes)) :
    (storedArchive members).length = (members.map fun member => (localEntry member).length).sum + (directory 0 members).length + 22 := by
  simp only [storedArchive,List.length_append,little_length,List.length_flatMap,List.length_cons,List.length_nil]

theorem directory_length (members : List (ZipInfo × Bytes)) (offset : Nat) :
    (directory offset members).length = (members.map fun member => 46 + member.1.filename.length).sum := by
  induction members generalizing offset with
  | nil => rfl
  | cons member rest ih =>
    rw [directory,List.length_append,ih,List.map_cons,List.sum_cons]
    simp only [header,nameBytes,List.length_append,little_length,List.length_cons,List.length_nil,List.length_map]

theorem storedArchive_weight (entries : List (Text × Bytes)) :
    weight entries ≤ (storedArchive (entries.map fun member => (zipInfo member.1,member.2))).length := by
  rw [storedArchive_length,weight,List.map_map]
  have less : (entries.map fun entry => entry.2.length).sum ≤
      (entries.map ((fun member => (localEntry member).length) ∘ fun member => (zipInfo member.1,member.2))).sum := by
    refine List.sum_le_sum fun entry _ => ?_
    rw [Function.comp_apply,localEntry_length]
    dsimp only
    omega
  omega

theorem zipfileOf_built (found : sourceMembers tree = some members) (sorted : sortedMembers members = entries)
    (small : (storedArchive (entries.map fun member => (zipInfo member.1,member.2))).length ≤ maxArtifactBytes) :
    buildZipappBytes (zipfileOf entries) (.tree tree) = .ok (storedArchive (entries.map fun member => (zipInfo member.1,member.2))) := by
  have walked : membersOf (zipfileOf entries) (.tree tree) = some members := found
  have some' : storedArchive (entries.map fun member => (zipInfo member.1,member.2)) ≠ [] := by
    rw [← List.length_pos_iff,storedArchive_length]
    omega
  rw [buildZipappBytes,walked]
  dsimp only
  rw [sorted,zipfileOf]
  dsimp only
  rw [if_pos rfl]
  dsimp only
  rw [if_neg (not_or.mpr ⟨some',not_lt.mpr small⟩)]

theorem zipfileOf_faithful (sorted : sortedMembers members = entries) :
    Faithful (zipfileOf entries) members (storedArchive (entries.map fun member => (zipInfo member.1,member.2))) := by
  refine ⟨?_,?_⟩ <;> rw [sorted]
  · exact if_pos rfl
  · exact storedArchive_weight entries

def demoArchive : Bytes := storedArchive ((demoEntries []).map fun member => (zipInfo member.1,member.2))

theorem demo_rebuilt : buildZipappBytes (zipfileOf (demoEntries [])) (.archive ⟨true,demoArchive⟩) = .ok demoArchive := by
  have found : sourceMembers (demoTree []) = some ⟨demoEntries [],by decide⟩ := rfl
  have sorted : sortedMembers ⟨demoEntries [],by decide⟩ = demoEntries [] := sortBy_id (by decide)
  have small : (storedArchive ((demoEntries []).map fun member => (zipInfo member.1,member.2))).length ≤ maxArtifactBytes := by
    rw [storedArchive_length,directory_length]
    simp only [localEntry_length]
    decide +kernel
  have portable : ∀ name ∈ (demoEntries []).map Prod.fst, name ≠ mainName → 92 ∉ name ∧
      (Utf8.encode name).any (·.length ≤ maxSourceNameBytes) = true ∧ (name.splitOn 47).getLast? ≠ some (str ".py") := by decide
  refine (rebuilt_exact found (zipfileOf_built found sorted small) (zipfileOf_faithful sorted)).1.mpr
    ⟨by decide,by decide,fun name inside other => ?_⟩
  obtain ⟨slashes,short,titled⟩ := portable name inside other
  exact ⟨slashes,short,titled⟩

-- A file named .py: the walk takes it, and the archive reader refuses the archive for it.
theorem nameless_source_refused : ¬ ∀ (z : Zipfile) (tree : Tree) (members : Dict Text Bytes) (artifact : Bytes),
    sourceMembers tree = some members → buildZipappBytes z (.tree tree) = .ok artifact → Faithful z members artifact →
      buildZipappBytes z (.archive ⟨true,artifact⟩) = .ok artifact := by
  intro claimed
  let extra : List (Text × Bytes) := [(str "sidecar/.py",[])]
  have found : sourceMembers (demoTree [fileIn ".py" ⟨by decide,_,rfl,by decide⟩ ""]) = some ⟨demoEntries extra,by decide⟩ := rfl
  have sorted : sortedMembers ⟨demoEntries extra,by decide⟩ = demoEntries extra := sortBy_id (by decide)
  have small : (storedArchive ((demoEntries extra).map fun member => (zipInfo member.1,member.2))).length ≤ maxArtifactBytes := by
    rw [storedArchive_length,directory_length]
    simp only [localEntry_length]
    decide +kernel
  have filled : storedArchive ((demoEntries extra).map fun member => (zipInfo member.1,member.2)) ≠ [] := by
    rw [← List.length_pos_iff,storedArchive_length]
    omega
  obtain ⟨gathered,required⟩ := sourceMembers_members found
  have refused : membersOf (zipfileOf (demoEntries extra))
      (.archive ⟨true,storedArchive ((demoEntries extra).map fun member => (zipInfo member.1,member.2))⟩) = none :=
    (archiveSourceMembers_built gathered required (zipfileOf_faithful sorted) filled small).2 fun rebuildable =>
      (rebuildable.names (str "sidecar/.py") (by decide) (by decide)).titled (by decide)
  have same := claimed _ _ _ _ found (zipfileOf_built found sorted small) (zipfileOf_faithful sorted)
  rw [buildZipappBytes,refused] at same
  cases same

end Stored
end AgentSideCar.Zipapp
