import AgentSideCar.Library.Gather
import AgentSideCar.Library.Loads
import AgentSideCar.Library.Stable
import Mathlib.Algebra.GroupWithZero.Nat
import Mathlib.Data.List.Lex
import Mathlib.Data.Prod.Lex

namespace AgentSideCar.Cluster
open Loads (Text str Value)
open Stable Gather

def maxClusterSessions : Nat := 4096
def maxClusterText : Nat := 256

-- The characters that strip takes away.
def isSpace (c : Nat) : Bool :=
  9 ≤ c && c ≤ 13 || 28 ≤ c && c ≤ 32 || c = 133 || c = 160 || c = 5760 || 8192 ≤ c && c ≤ 8202 || c = 8232 ||
    c = 8233 || c = 8239 || c = 8287 || c = 12288

def strip (value : Text) : Text := ((value.dropWhile isSpace).reverse.dropWhile isSpace).reverse

def text (limit : Nat) : Option Value → Text
  | some (.text value) => (strip value).take limit
  | _ => []

def field (row : Value) (key : String) : Option Value :=
  match row with
  | .dict fields => (fields.find? fun entry => entry.1 = str key).map Prod.snd
  | _ => none

def extraValue (row : Value) (key : String) : Text := text maxClusterText ((field row "extra").bind (field · key))

def orUnknown (value : Text) : Text := if value = [] then str "unknown" else value

structure Key where
  project : Text
  agent : Text
  model : Text
  provider : Text
  bucket : Int
  deriving DecidableEq

-- The interpreter's part: case folding, the bucket of an update time and its start (floats), SHA-256.
structure Reading (Time : Type) where
  casefold : Text → Text
  bucket : Option Value → Int
  bucketStart : Int → Time
  sha256 : Text → Nat

def hexDigit (n : Nat) : Nat := if n < 10 then 48 + n else 87 + n

def hexdigest (n : Nat) : Text := (List.range 64).map fun i => hexDigit (n / 16 ^ (63 - i) % 16)

def escape (c : Nat) : Text :=
  if c = 34 then str "\\\"" else if c = 92 then str "\\\\" else if c = 10 then str "\\n" else if c = 13 then str "\\r"
  else if c = 9 then str "\\t" else if c = 8 then str "\\b" else if c = 12 then str "\\f"
  else if c < 32 then str "\\u00" ++ [hexDigit (c / 16),hexDigit (c % 16)] else [c]

def quoted (value : Text) : Text := [34] ++ value.flatMap escape ++ [34]

def dumps (key : Key) : Text :=
  str "[" ++ quoted key.project ++ str "," ++ quoted key.agent ++ str "," ++ quoted key.model ++ str "," ++
    quoted key.provider ++ str "," ++ str (toString key.bucket) ++ str "]"

structure Group (Time : Type) where
  clusterId : Text
  project : Text
  agent : Text
  model : Text
  modelProvider : Text
  timeBucket : Time
  count : Nat
  sessionIds : List Text
  hosts : List Text

-- A group that is received: a field is absent where it is no text, and a count where it is no natural number.
structure Source (Time : Type) where
  clusterId : Option Text
  project : Option Text
  agent : Option Text
  model : Option Text
  modelProvider : Option Text
  timeBucket : Time
  count : Option Nat
  sessionIds : List (Option Text)
  hosts : List (Option Text)
  host : Option Text

def Group.source (g : Group Time) : Source Time :=
  { clusterId := g.clusterId
    project := g.project
    agent := g.agent
    model := g.model
    modelProvider := g.modelProvider
    timeBucket := g.timeBucket
    count := g.count
    sessionIds := g.sessionIds.map some
    hosts := g.hosts.map some
    host := none }

section Sessions
variable {Time : Type} (r : Reading Time)

def clusterKey (row : Value) : Key :=
  { project := orUnknown (text maxClusterText (field row "project"))
    agent := orUnknown (text maxClusterText (field row "agent"))
    model := orUnknown (extraValue row "model")
    provider := orUnknown (extraValue row "model_provider")
    bucket := r.bucket (field row "updated_at") }

def clusterId (key : Key) : Text := (hexdigest (r.sha256 (dumps key))).take 16

def newGroup (key : Key) : Group Time :=
  { clusterId := clusterId r key
    project := key.project
    agent := key.agent
    model := key.model
    modelProvider := key.provider
    timeBucket := r.bucketStart key.bucket
    count := 0
    sessionIds := []
    hosts := [] }

def sessionId (row : Value) : Text := text 4096 (field row "session_id")
def hostOf (row : Value) : Text := text 256 (field row "host")

def addRow (group : Group Time) (row : Value) : Group Time :=
  { group with
    count := group.count + 1
    sessionIds := if sessionId row = [] then group.sessionIds else keepFirst maxClusterSessions group.sessionIds (sessionId row)
    hosts := if hostOf row = [] then group.hosts else keepNew none group.hosts (hostOf row) }

def sortKey (group : Group Time) : Text ×ₗ Text ×ₗ Text ×ₗ Time ×ₗ Text :=
  toLex (r.casefold group.project,toLex (r.casefold group.agent,toLex (r.casefold group.model,
    toLex (group.timeBucket,group.clusterId))))

def sorted (group : Group Time) : Group Time :=
  { group with hosts := sortBy r.casefold group.hosts,sessionIds := sortBy id group.sessionIds }

def arranged [LinearOrder Time] (groups : List (Group Time)) : List (Group Time) := (sortBy (sortKey r) groups).map (sorted r)

def isMapping : Value → Bool
  | .dict _ => true
  | _ => false

def groupsOf (rows : List Value) : Dict Key (Group Time) :=
  gather (clusterKey r) (fun row => newGroup r (clusterKey r row)) addRow (rows.filter isMapping)

def clusterSessions [LinearOrder Time] (rows : List Value) : List (Group Time) := arranged r (groupsOf r rows).values

def received (limit : Nat) (value : Option Text) : Text := text limit (value.map .text)

def newTarget (source : Source Time) : Group Time :=
  { clusterId := received 64 source.clusterId
    project := orUnknown (received maxClusterText source.project)
    agent := orUnknown (received maxClusterText source.agent)
    model := orUnknown (received maxClusterText source.model)
    modelProvider := orUnknown (received maxClusterText source.modelProvider)
    timeBucket := source.timeBucket
    count := 0
    sessionIds := []
    hosts := [] }

def addSource (target : Group Time) (source : Source Time) : Group Time :=
  { target with
    count := target.count + source.count.getD 0
    sessionIds := (source.sessionIds.filterMap id).foldl (keepNew (some maxClusterSessions)) target.sessionIds
    hosts := ((source.hosts ++ [source.host]).filterMap id).foldl (keepNew (some maxClusterSessions)) target.hosts }

def mergedOf (sources : List (Source Time)) : Dict Text (Group Time) :=
  gather (fun source => received 64 source.clusterId) newTarget addSource
    (sources.filter fun source => received 64 source.clusterId ≠ [])

def mergeClusterResults [LinearOrder Time] (sources : List (Source Time)) : List (Group Time) := arranged r (mergedOf sources).values

theorem hexDigit_solid (below : n < 16) : isSpace (hexDigit n) = false := by
  have all : ∀ m < 16, isSpace (hexDigit m) = false := by decide
  exact all n below

theorem dropWhile_solid {value : Text} (solid : ∀ c ∈ value, isSpace c = false) : value.dropWhile isSpace = value := by
  cases value with
  | nil => rfl
  | cons c rest => exact List.dropWhile_cons_of_neg (by simp [solid c List.mem_cons_self])

theorem strip_solid {value : Text} (solid : ∀ c ∈ value, isSpace c = false) : strip value = value := by
  rw [strip,dropWhile_solid solid,dropWhile_solid (fun c inside => solid c (List.mem_reverse.mp inside)),List.reverse_reverse]

theorem clusterId_length (key : Key) : (clusterId r key).length = 16 := by
  simp [clusterId,hexdigest]

theorem received_clusterId (key : Key) : received 64 (some (clusterId r key)) = clusterId r key := by
  have solid : ∀ c ∈ clusterId r key, isSpace c = false := by
    intro c inside
    obtain ⟨i,_,rfl⟩ := List.mem_map.mp (List.mem_of_mem_take inside)
    exact hexDigit_solid (Nat.mod_lt _ (by decide))
  change (strip (clusterId r key)).take 64 = clusterId r key
  rw [strip_solid solid,List.take_of_length_le]
  rw [clusterId_length]
  decide

theorem orUnknown_nonempty (value : Text) : orUnknown value ≠ [] := by
  unfold orUnknown
  split
  · decide
  · assumption

def sessionsOf (rows : List Value) : List Text := (rows.map sessionId).filter (· ≠ [])
def hostsOf (rows : List Value) : List Text := (rows.map hostOf).filter (· ≠ [])

theorem addRows (group : Group Time) (rows : List Value) :
    rows.foldl addRow group = { group with
      count := group.count + rows.length
      sessionIds := (sessionsOf rows).foldl (keepFirst maxClusterSessions) group.sessionIds
      hosts := (hostsOf rows).foldl (keepNew none) group.hosts } := by
  induction rows generalizing group with
  | nil => rfl
  | cons row rows ih =>
    have ids : (sessionsOf (row :: rows)).foldl (keepFirst maxClusterSessions) group.sessionIds =
        (sessionsOf rows).foldl (keepFirst maxClusterSessions) (addRow group row).sessionIds := by
      by_cases blank : sessionId row = [] <;> simp [sessionsOf,addRow,blank]
    have names : (hostsOf (row :: rows)).foldl (keepNew none) group.hosts =
        (hostsOf rows).foldl (keepNew none) (addRow group row).hosts := by
      by_cases blank : hostOf row = [] <;> simp [hostsOf,addRow,blank]
    rw [List.foldl_cons,ih,ids,names]
    simp only [addRow,List.length_cons]
    congr 1
    omega

theorem addSources (target : Group Time) (sources : List (Source Time)) :
    sources.foldl addSource target = { target with
      count := target.count + (sources.map fun source => source.count.getD 0).sum
      sessionIds := (sources.flatMap fun source => source.sessionIds.filterMap id).foldl
        (keepNew (some maxClusterSessions)) target.sessionIds
      hosts := (sources.flatMap fun source => (source.hosts ++ [source.host]).filterMap id).foldl
        (keepNew (some maxClusterSessions)) target.hosts } := by
  induction sources generalizing target with
  | nil => rfl
  | cons source sources ih =>
    rw [List.foldl_cons,ih]
    simp only [addSource,List.map_cons,List.sum_cons,List.flatMap_cons,List.foldl_append]
    congr 1
    omega

-- The rows of a key, and the group that they make before it is sorted.
def mine (rows : List Value) (key : Key) : List Value := (rows.filter isMapping).filter fun row => clusterKey r row = key

def made (key : Key) (rows : List Value) : Group Time := rows.foldl addRow (newGroup r key)

theorem mine_key (inside : row ∈ mine r rows key) : clusterKey r row = key := by
  simpa using (List.mem_filter.mp inside).2

theorem mine_exists : mine r rows key ≠ [] ↔ ∃ row ∈ rows.filter isMapping, clusterKey r row = key := by
  simp only [mine,ne_eq,List.filter_eq_nil_iff,decide_eq_true_eq,not_forall,not_not,exists_prop]

theorem collect_mine (key : Key) {rows : List Value} (keyed : ∀ row ∈ rows, clusterKey r row = key) (some_rows : rows ≠ []) :
    collect (fun row => newGroup r (clusterKey r row)) addRow rows = some (made r key rows) := by
  cases rows with
  | nil => exact absurd rfl some_rows
  | cons row rows =>
    change some ((row :: rows).foldl addRow (newGroup r (clusterKey r row))) = _
    rw [keyed row List.mem_cons_self]
    rfl

theorem groupsOf_get (rows : List Value) (key : Key) :
    (groupsOf r rows).get key = if mine r rows key = [] then none else some (made r key (mine r rows key)) := by
  rw [groupsOf,gather_get]
  split
  · rename_i empty
    rw [mine] at empty
    rw [empty]
    rfl
  · rename_i some_rows
    exact collect_mine r key (fun _ inside => mine_key r inside) some_rows

theorem groupsOf_keys (rows : List Value) : key ∈ (groupsOf r rows).keys ↔ mine r rows key ≠ [] := by
  rw [Dict.mem_keys,groupsOf_get]
  split <;> simp_all

theorem groupsOf_some (found : (groupsOf r rows).get key = some group) : group = made r key (mine r rows key) := by
  rw [groupsOf_get] at found
  split at found
  · cases found
  · exact (Option.some.inj found).symm

-- What merging makes of a group: it keeps a session id once.
def distinct (group : Group Time) : Group Time := { group with sessionIds := group.sessionIds.dedup }

-- A cluster within the caps, whose hosts no case folding confuses.
structure Fits (rows : List Value) : Prop where
  sessions : (sessionsOf rows).length ≤ maxClusterSessions
  hosts : (hostsOf rows).dedup.length ≤ maxClusterSessions
  folds : ∀ a ∈ hostsOf rows, ∀ b ∈ hostsOf rows, r.casefold a = r.casefold b → a = b

-- A label that stripping and cutting it once more leaves as it is.
def Settled (label : Text) : Prop := text maxClusterText (some (.text label)) = label

theorem sessionsOf_perm (perm : rows.Perm others) : (sessionsOf rows).Perm (sessionsOf others) := (perm.map _).filter _
theorem hostsOf_perm (perm : rows.Perm others) : (hostsOf rows).Perm (hostsOf others) := (perm.map _).filter _

theorem sessionsOf_flatten (pieces : List (List Value)) : sessionsOf pieces.flatten = pieces.flatMap sessionsOf := by
  induction pieces with
  | nil => rfl
  | cons rows pieces ih => rw [List.flatten_cons,List.flatMap_cons,← ih,sessionsOf,List.map_append,List.filter_append,sessionsOf,sessionsOf]

theorem hostsOf_flatten (pieces : List (List Value)) : hostsOf pieces.flatten = pieces.flatMap hostsOf := by
  induction pieces with
  | nil => rfl
  | cons rows pieces ih => rw [List.flatten_cons,List.flatMap_cons,← ih,hostsOf,List.map_append,List.filter_append,hostsOf,hostsOf]

theorem made_fields (key : Key) (rows : List Value) : made r key rows = { newGroup r key with
    count := rows.length
    sessionIds := (sessionsOf rows).foldl (keepFirst maxClusterSessions) []
    hosts := (hostsOf rows).foldl (keepNew none) [] } := by
  rw [made,addRows]
  simp only [newGroup,Nat.zero_add]

theorem made_sessions (key : Key) {rows : List Value} (few : (sessionsOf rows).length ≤ maxClusterSessions) :
    (made r key rows).sessionIds = sessionsOf rows := by
  rw [made_fields]
  have room : ([] : List Text).length + (sessionsOf rows).length ≤ maxClusterSessions := by simpa using few
  exact foldl_keepFirst room

theorem made_hosts (key : Key) (rows : List Value) :
    (made r key rows).hosts.Nodup ∧ ∀ host, host ∈ (made r key rows).hosts ↔ host ∈ hostsOf rows := by
  rw [made_fields]
  refine ⟨foldl_keepNew_nodup none _ List.nodup_nil,fun host => ?_⟩
  rw [foldl_keepNew_mem List.nodup_nil (List.nil_subset _) (List.Subset.refl (hostsOf rows)) (by simp)]
  simp

theorem hosts_same {hosts others : List Text} (distinct : hosts.Nodup) (also : others.Nodup)
    (same : ∀ host, host ∈ hosts ↔ host ∈ others)
    (folds : ∀ a ∈ hosts, ∀ b ∈ hosts, r.casefold a = r.casefold b → a = b) :
    sortBy r.casefold hosts = sortBy r.casefold others :=
  sortBy_congr ((List.perm_ext_iff_of_nodup distinct also).mpr same) folds

theorem ids_same {ids others : List Text} (perm : ids.Perm others) : sortBy id ids = sortBy id others :=
  sortBy_congr perm fun _ _ _ _ same => same

theorem ids_distinct {ids all : List Text} (distinct : ids.Nodup) (same : ∀ name, name ∈ ids ↔ name ∈ all) :
    sortBy id ids = (sortBy id all).dedup := by
  have perm : (sortBy id ids).Perm (sortBy id all).dedup := by
    refine (List.perm_ext_iff_of_nodup ((sortBy_perm _ _).nodup_iff.mpr distinct) (List.nodup_dedup _)).mpr fun name => ?_
    rw [sortBy_mem,List.mem_dedup,sortBy_mem,same]
  apply perm.eq_of_pairwise ?_ (sortBy_sorted id ids) ((sortBy_sorted id all).sublist (List.dedup_sublist _))
  intro a b _ _ ab ba
  exact le_antisymm ab ba

theorem made_perm (key : Key) (perm : rows.Perm others) (fits : Fits r rows) :
    sorted r (made r key rows) = sorted r (made r key others) := by
  have sessions : (sessionsOf others).length ≤ maxClusterSessions := (sessionsOf_perm perm).length_eq ▸ fits.sessions
  obtain ⟨distinct,members⟩ := made_hosts r key rows
  obtain ⟨also,others_members⟩ := made_hosts r key others
  have hosts : sortBy r.casefold (made r key rows).hosts = sortBy r.casefold (made r key others).hosts := by
    apply hosts_same r distinct also
    · intro host
      rw [members,others_members,(hostsOf_perm perm).mem_iff]
    · intro a ina b inb same
      exact fits.folds a ((members a).mp ina) b ((members b).mp inb) same
  have ids : sortBy id (made r key rows).sessionIds = sortBy id (made r key others).sessionIds := by
    rw [made_sessions r key fits.sessions,made_sessions r key sessions]
    exact ids_same (sessionsOf_perm perm)
  simp only [sorted,hosts,ids]
  rw [made_fields,made_fields,perm.length_eq]

-- What the groups of a key, one of each host that has any of its rows, merge to.
def joined (key : Key) (pieces : List (List Value)) : Group Time :=
  { clusterId := clusterId r key
    project := orUnknown (received maxClusterText (some key.project))
    agent := orUnknown (received maxClusterText (some key.agent))
    model := orUnknown (received maxClusterText (some key.model))
    modelProvider := orUnknown (received maxClusterText (some key.provider))
    timeBucket := r.bucketStart key.bucket
    count := pieces.flatten.length
    sessionIds := (pieces.flatMap fun rows => sortBy id (made r key rows).sessionIds).foldl
      (keepNew (some maxClusterSessions)) []
    hosts := (pieces.flatMap fun rows => sortBy r.casefold (made r key rows).hosts).foldl
      (keepNew (some maxClusterSessions)) [] }

def sent (key : Key) (rows : List Value) : Source Time := (sorted r (made r key rows)).source

theorem newTarget_sent (key : Key) (rows : List Value) :
    newTarget (sent r key rows) = { joined r key [] with count := 0,sessionIds := [],hosts := [] } := by
  simp only [newTarget,sent,sorted,Group.source,joined,made_fields,newGroup,received_clusterId]

theorem sent_count (key : Key) (rows : List Value) : (sent r key rows).count.getD 0 = rows.length := by
  simp only [sent,sorted,Group.source,made_fields,Option.getD_some]

theorem sent_sessions (key : Key) (rows : List Value) :
    (sent r key rows).sessionIds.filterMap id = sortBy id (made r key rows).sessionIds := by
  simp [sent,sorted,Group.source]

theorem sent_hosts (key : Key) (rows : List Value) :
    ((sent r key rows).hosts ++ [(sent r key rows).host]).filterMap id = sortBy r.casefold (made r key rows).hosts := by
  simp [sent,sorted,Group.source]

theorem collect_sent (key : Key) {pieces : List (List Value)} (some_pieces : pieces ≠ []) :
    collect newTarget addSource (pieces.map (sent r key)) = some (joined r key pieces) := by
  cases pieces with
  | nil => exact absurd rfl some_pieces
  | cons rows pieces =>
    change some (((rows :: pieces).map (sent r key)).foldl addSource (newTarget (sent r key rows))) = _
    rw [addSources,newTarget_sent,List.flatMap_map,List.flatMap_map,List.map_map]
    simp only [Function.comp_def,sent_count,sent_sessions,sent_hosts,joined,List.length_flatten,Nat.zero_add]

theorem joined_sessions (key : Key) {pieces : List (List Value)} (perm : pieces.flatten.Perm rows) (fits : Fits r rows) :
    sortBy id (joined r key pieces).sessionIds = (sortBy id (made r key rows).sessionIds).dedup := by
  have within : ∀ piece ∈ pieces, (sessionsOf piece).length ≤ maxClusterSessions := by
    intro piece inside
    have part : (sessionsOf piece).Sublist (sessionsOf pieces.flatten) :=
      ((List.sublist_flatten_of_mem inside).map _).filter _
    exact (part.length_le.trans (sessionsOf_perm perm).length_eq.le).trans fits.sessions
  have members : ∀ name, name ∈ pieces.flatMap (fun piece => sortBy id (made r key piece).sessionIds) ↔ name ∈ sessionsOf rows := by
    intro name
    rw [← (sessionsOf_perm perm).mem_iff,sessionsOf_flatten,List.mem_flatMap,List.mem_flatMap]
    refine exists_congr fun piece => and_congr_right fun inside => ?_
    rw [sortBy_mem,made_sessions r key (within piece inside)]
  rw [made_sessions r key fits.sessions]
  apply ids_distinct (foldl_keepNew_nodup _ _ List.nodup_nil)
  intro name
  have few : ∀ most ∈ some maxClusterSessions, (sessionsOf rows).dedup.length ≤ most := by
    rintro most ⟨⟩
    exact (List.dedup_sublist _).length_le.trans fits.sessions
  rw [foldl_keepNew_mem List.nodup_nil (List.nil_subset _) (fun name inside => (members name).mp inside) few,members]
  simp

theorem joined_hosts (key : Key) {pieces : List (List Value)} (perm : pieces.flatten.Perm rows) (fits : Fits r rows) :
    sortBy r.casefold (joined r key pieces).hosts = sortBy r.casefold (made r key rows).hosts := by
  obtain ⟨distinct,known⟩ := made_hosts r key rows
  have members : ∀ host, host ∈ pieces.flatMap (fun piece => sortBy r.casefold (made r key piece).hosts) ↔ host ∈ hostsOf rows := by
    intro host
    rw [← (hostsOf_perm perm).mem_iff,hostsOf_flatten,List.mem_flatMap,List.mem_flatMap]
    refine exists_congr fun piece => and_congr_right fun _ => ?_
    rw [sortBy_mem,(made_hosts r key piece).2]
  have few : ∀ most ∈ some maxClusterSessions, (hostsOf rows).dedup.length ≤ most := by
    rintro most ⟨⟩
    exact fits.hosts
  have kept : ∀ host, host ∈ (joined r key pieces).hosts ↔ host ∈ hostsOf rows := by
    intro host
    rw [joined,foldl_keepNew_mem List.nodup_nil (List.nil_subset _) (fun host inside => (members host).mp inside) few,members]
    simp
  apply hosts_same r (foldl_keepNew_nodup _ _ List.nodup_nil) distinct
  · intro host
    exact (kept host).trans (known host).symm
  · intro a ina b inb same
    exact fits.folds a ((kept a).mp ina) b ((kept b).mp inb) same

theorem received_settled (settled : Settled label) (some_label : label ≠ []) :
    orUnknown (received maxClusterText (some label)) = label := by
  change orUnknown (text maxClusterText (some (.text label))) = label
  rw [settled,orUnknown,if_neg some_label]

structure Settles (key : Key) : Prop where
  project : Settled key.project
  agent : Settled key.agent
  model : Settled key.model
  provider : Settled key.provider

theorem joined_exact {key : Key} (named : clusterKey r row = key) (settles : Settles key)
    (perm : List.Perm pieces.flatten rows) (fits : Fits r rows) :
    sorted r (joined r key pieces) = distinct (sorted r (made r key rows)) := by
  subst named
  simp only [sorted,distinct,joined_sessions r _ perm fits,joined_hosts r _ perm fits]
  rw [made_fields]
  simp only [joined,newGroup,received_settled settles.project (orUnknown_nonempty _),
    received_settled settles.agent (orUnknown_nonempty _),received_settled settles.model (orUnknown_nonempty _),
    received_settled settles.provider (orUnknown_nonempty _),perm.length_eq]

def pieces (parts : List (List Value)) (key : Key) : List (List Value) := (parts.map fun part => mine r part key).filter (· ≠ [])

theorem pieces_flatten (parts : List (List Value)) (key : Key) : (pieces r parts key).flatten = mine r parts.flatten key := by
  induction parts with
  | nil => rfl
  | cons part parts ih =>
    have split : mine r (part :: parts).flatten key = mine r part key ++ mine r parts.flatten key := by
      rw [mine,List.flatten_cons,List.filter_append,List.filter_append]
      rfl
    rw [split,← ih,pieces,pieces,List.map_cons,List.filter_cons]
    by_cases empty : mine r part key = [] <;> simp [empty]

theorem pieces_perm (perm : List.Perm parts.flatten rows) (key : Key) : (pieces r parts key).flatten.Perm (mine r rows key) := by
  rw [pieces_flatten]
  exact (perm.filter _).filter _

variable [LinearOrder Time]

theorem clusterSessions_perm (rows : List Value) :
    (clusterSessions r rows).Perm ((groupsOf r rows).keys.map fun key => sorted r (made r key (mine r rows key))) := by
  rw [← Dict.values_map (f := sorted r) _ fun key group found => congrArg (sorted r) (groupsOf_some r found)]
  exact (sortBy_perm _ _).map _

-- No two clusters of the rows share an id.
def Apart (rows : List Value) : Prop :=
  ∀ a ∈ rows.filter isMapping, ∀ b ∈ rows.filter isMapping,
    clusterId r (clusterKey r a) = clusterId r (clusterKey r b) → clusterKey r a = clusterKey r b

def sourcesOf (parts : List (List Value)) : List (Source Time) := (parts.flatMap (clusterSessions r)).map Group.source

theorem keys_alone (distinct : List.Nodup keys) (key : Key) : keys.filter (fun k => k = key) = if key ∈ keys then [key] else [] := by
  rw [List.filter_eq]
  split
  · rename_i inside
    rw [List.count_eq_one_of_mem distinct inside,List.replicate_one]
  · rename_i outside
    rw [List.count_eq_zero_of_not_mem outside,List.replicate_zero]

theorem sources_part {part rows : List Value} (apart : Apart r rows) (inside : part ⊆ rows) (present : mine r rows key ≠ []) :
    ((clusterSessions r part).map Group.source).filter (fun source => received 64 source.clusterId = clusterId r key) =
      if mine r part key = [] then [] else [sent r key (mine r part key)] := by
  have perm := ((clusterSessions_perm r part).map Group.source).filter fun source => received 64 source.clusterId = clusterId r key
  have same : ∀ k ∈ (groupsOf r part).keys, decide (received 64 (sent r k (mine r part k)).clusterId = clusterId r key) = decide (k = key) := by
    intro k inner
    have named : received 64 (sent r k (mine r part k)).clusterId = clusterId r k := by
      simp only [sent,sorted,Group.source,made_fields,newGroup,received_clusterId]
    obtain ⟨a,ina,rfl⟩ := (mine_exists r).mp ((groupsOf_keys r part).mp inner)
    obtain ⟨b,inb,rfl⟩ := (mine_exists r).mp present
    rw [named,decide_eq_decide]
    constructor
    · rw [List.mem_filter] at ina
      exact apart a (List.mem_filter.mpr ⟨inside ina.1,ina.2⟩) b inb
    · rintro same
      rw [same]
  have here : (((groupsOf r part).keys.map fun k => sorted r (made r k (mine r part k))).map Group.source).filter
      (fun source => received 64 source.clusterId = clusterId r key) =
      (if key ∈ (groupsOf r part).keys then [key] else []).map fun k => sent r k (mine r part k) := by
    have unique : (groupsOf r part).keys.Nodup := (groupsOf r part).unique
    rw [← keys_alone unique,← List.filter_congr same,List.map_map,List.filter_map]
    rfl
  rw [here] at perm
  by_cases empty : mine r part key = []
  · have absent : key ∉ (groupsOf r part).keys := fun inner => (groupsOf_keys r part).mp inner empty
    rw [if_neg absent] at perm
    rw [if_pos empty]
    exact perm.eq_nil
  · rw [if_pos ((groupsOf_keys r part).mpr empty)] at perm
    rw [if_neg empty]
    exact List.perm_singleton.mp perm

theorem sources_key {parts : List (List Value)} (apart : Apart r rows) (inside : ∀ part ∈ parts, part ⊆ rows)
    (present : mine r rows key ≠ []) :
    (sourcesOf r parts).filter (fun source => received 64 source.clusterId = clusterId r key) = (pieces r parts key).map (sent r key) := by
  induction parts with
  | nil => rfl
  | cons part parts ih =>
    have rest := ih fun part later => inside part (List.mem_cons_of_mem _ later)
    rw [sourcesOf] at rest ⊢
    rw [List.flatMap_cons,List.map_append,List.filter_append,rest,sources_part r apart (inside part List.mem_cons_self) present,
      pieces,pieces,List.map_cons,List.filter_cons]
    by_cases empty : mine r part key = [] <;> simp [empty]

theorem parts_inside {parts : List (List Value)} (perm : parts.flatten.Perm rows) : ∀ part ∈ parts, part ⊆ rows :=
  fun _ inside _ there => perm.subset (List.mem_flatten.mpr ⟨_,inside,there⟩)

theorem mergedOf_get (apart : Apart r rows) (perm : List.Perm parts.flatten rows) (present : mine r rows key ≠ []) :
    (mergedOf (sourcesOf r parts)).get (clusterId r key) = some (joined r key (pieces r parts key)) := by
  have named : clusterId r key ≠ [] := by
    intro empty
    have := clusterId_length r key
    rw [empty] at this
    cases this
  have once : ((sourcesOf r parts).filter fun source => received 64 source.clusterId ≠ []).filter
      (fun source => received 64 source.clusterId = clusterId r key) =
      (sourcesOf r parts).filter fun source => received 64 source.clusterId = clusterId r key := by
    rw [List.filter_filter]
    refine List.filter_congr fun source _ => ?_
    by_cases same : received 64 source.clusterId = clusterId r key <;> simp [same,named]
  rw [mergedOf,gather_get,once,sources_key r apart (parts_inside perm) present]
  apply collect_sent
  intro empty
  have gone := pieces_perm r perm key
  rw [empty] at gone
  exact present gone.symm.eq_nil

theorem mergedOf_keys (apart : Apart r rows) (perm : List.Perm parts.flatten rows) :
    (mergedOf (sourcesOf r parts)).keys.Perm ((groupsOf r rows).keys.map (clusterId r)) := by
  have distinct : ((groupsOf r rows).keys.map (clusterId r)).Nodup := by
    refine List.Nodup.map_on ?_ (groupsOf r rows).unique
    intro k inner k' inner' same
    obtain ⟨a,ina,rfl⟩ := (mine_exists r).mp ((groupsOf_keys r rows).mp inner)
    obtain ⟨b,inb,rfl⟩ := (mine_exists r).mp ((groupsOf_keys r rows).mp inner')
    exact apart a ina b inb same
  refine (List.perm_ext_iff_of_nodup (mergedOf (sourcesOf r parts)).unique distinct).mpr fun name => ?_
  constructor
  · intro inner
    obtain ⟨source,inside,rfl⟩ := (gather_keys _ _ _ _).mp inner
    obtain ⟨group,there,rfl⟩ := List.mem_map.mp (List.mem_of_mem_filter inside)
    obtain ⟨part,among,there⟩ := List.mem_flatMap.mp there
    obtain ⟨k,here,rfl⟩ := List.mem_map.mp ((clusterSessions_perm r part).mem_iff.mp there)
    have named : received 64 (sorted r (made r k (mine r part k))).source.clusterId = clusterId r k := by
      simp only [sorted,Group.source,made_fields,newGroup,received_clusterId]
    rw [named]
    refine List.mem_map.mpr ⟨k,(groupsOf_keys r rows).mpr ?_,rfl⟩
    obtain ⟨row,ina,keyed⟩ := (mine_exists r).mp ((groupsOf_keys r part).mp here)
    rw [List.mem_filter] at ina
    exact (mine_exists r).mpr ⟨row,List.mem_filter.mpr ⟨parts_inside perm part among ina.1,ina.2⟩,keyed⟩
  · intro inner
    obtain ⟨k,here,rfl⟩ := List.mem_map.mp inner
    exact (Dict.mem_keys _).mpr ⟨_,mergedOf_get r apart perm ((groupsOf_keys r rows).mp here)⟩

-- What the merged groups and the groups of all rows agree on cluster by cluster, they agree on as a whole.
theorem merged_perm {f g : Group Time → β} (apart : Apart r rows) (perm : List.Perm parts.flatten rows)
    (same : ∀ key, mine r rows key ≠ [] →
      f (sorted r (joined r key (pieces r parts key))) = g (sorted r (made r key (mine r rows key)))) :
    ((mergeClusterResults r (sourcesOf r parts)).map f).Perm ((clusterSessions r rows).map g) := by
  have values : (mergedOf (sourcesOf r parts)).values.map (fun group => some (f (sorted r group))) =
      (mergedOf (sourcesOf r parts)).keys.map fun name =>
        ((mergedOf (sourcesOf r parts)).get name).map fun group => f (sorted r group) :=
    Dict.values_map _ fun _ _ found => by rw [found]; rfl
  have named : (groupsOf r rows).keys.map (fun key => ((mergedOf (sourcesOf r parts)).get (clusterId r key)).map fun group => f (sorted r group)) =
      (groupsOf r rows).keys.map fun key => some (g (sorted r (made r key (mine r rows key)))) := by
    refine List.map_congr_left fun key inner => ?_
    have present := (groupsOf_keys r rows).mp inner
    rw [mergedOf_get r apart perm present,Option.map_some,same key present]
  apply (List.map_perm_map_iff (Option.some_injective β)).mp
  have merged : ((mergeClusterResults r (sourcesOf r parts)).map f).map some |>.Perm
      ((mergedOf (sourcesOf r parts)).values.map fun group => some (f (sorted r group))) := by
    rw [mergeClusterResults,arranged,List.map_map,List.map_map]
    exact (sortBy_perm _ _).map _
  have direct : (((clusterSessions r rows).map g).map some).Perm
      ((groupsOf r rows).keys.map fun key => some (g (sorted r (made r key (mine r rows key))))) := by
    rw [List.map_map]
    have each := (clusterSessions_perm r rows).map fun group => some (g group)
    rw [List.map_map] at each
    exact each
  refine merged.trans (.trans ?_ direct.symm)
  rw [values,← named]
  have keys := (mergedOf_keys r apart perm).map fun name =>
    ((mergedOf (sourcesOf r parts)).get name).map fun group => f (sorted r group)
  rwa [List.map_map] at keys

theorem arranged_sorted {f : Group Time → Group Time} (same : ∀ group, sortKey r (f group) = sortKey r group)
    (groups : List (Group Time)) : ((arranged r groups).map f).Pairwise fun a b => sortKey r a ≤ sortKey r b := by
  rw [arranged,List.map_map,List.pairwise_map]
  refine (sortBy_sorted (sortKey r) groups).imp fun {a b} le => ?_
  change sortKey r (f (sorted r a)) ≤ sortKey r (f (sorted r b))
  rw [same,same]
  exact le

theorem arranged_unique {groups others : List (Group Time)} (perm : groups.Perm others) (ids : (groups.map (·.clusterId)).Nodup)
    (first : groups.Pairwise fun a b => sortKey r a ≤ sortKey r b) (second : others.Pairwise fun a b => sortKey r a ≤ sortKey r b) :
    groups = others := by
  apply perm.eq_of_pairwise ?_ first second
  intro a b ina inb ab ba
  have same : sortKey r a = sortKey r b := le_antisymm ab ba
  simp only [sortKey,EmbeddingLike.apply_eq_iff_eq,Prod.mk.injEq] at same
  exact List.inj_on_of_nodup_map ids ina (perm.mem_iff.mpr inb) same.2.2.2.2

theorem clusterSessions_ids (apart : Apart r rows) : ((clusterSessions r rows).map (·.clusterId)).Nodup := by
  have named := (clusterSessions_perm r rows).map (·.clusterId)
  rw [List.map_map] at named
  refine named.nodup_iff.mpr (List.Nodup.map_on ?_ (groupsOf r rows).unique)
  intro k inner k' inner' same
  simp only [Function.comp,sorted,made_fields,newGroup] at same
  obtain ⟨a,ina,rfl⟩ := (mine_exists r).mp ((groupsOf_keys r rows).mp inner)
  obtain ⟨b,inb,rfl⟩ := (mine_exists r).mp ((groupsOf_keys r rows).mp inner')
  exact apart a ina b inb same

theorem clusterSessions_congr (apart : Apart r rows) (perm : others.Perm rows) (fits : ∀ key, Fits r (mine r rows key)) :
    clusterSessions r others = clusterSessions r rows := by
  have mines : ∀ key, (mine r rows key).Perm (mine r others key) := fun key => ((perm.filter _).filter _).symm
  have keys : (groupsOf r rows).keys.Perm (groupsOf r others).keys := by
    refine (List.perm_ext_iff_of_nodup (groupsOf r rows).unique (groupsOf r others).unique).mpr fun key => ?_
    change key ∈ (groupsOf r rows).keys ↔ key ∈ (groupsOf r others).keys
    rw [groupsOf_keys,groupsOf_keys,ne_eq,ne_eq,← List.length_eq_zero_iff,← List.length_eq_zero_iff,(mines key).length_eq]
  have same : (clusterSessions r rows).Perm (clusterSessions r others) := by
    refine (clusterSessions_perm r rows).trans (.trans ?_ (clusterSessions_perm r others).symm)
    have each : (groupsOf r rows).keys.map (fun key => sorted r (made r key (mine r rows key))) =
        (groupsOf r rows).keys.map fun key => sorted r (made r key (mine r others key)) :=
      List.map_congr_left fun key _ => made_perm r key (mines key) (fits key)
    rw [each]
    exact keys.map _
  have first := arranged_sorted r (f := id) (fun _ => rfl) (groupsOf r rows).values
  have second := arranged_sorted r (f := id) (fun _ => rfl) (groupsOf r others).values
  rw [List.map_id] at first second
  exact (arranged_unique r same (clusterSessions_ids r apart) first second).symm

theorem merged_exact (apart : Apart r rows) (perm : List.Perm parts.flatten rows) (fits : ∀ key, Fits r (mine r rows key))
    (settles : ∀ row ∈ rows, Settles (clusterKey r row)) :
    mergeClusterResults r (sourcesOf r parts) = (clusterSessions r rows).map distinct := by
  have whole : (mergeClusterResults r (sourcesOf r parts)).Perm ((clusterSessions r rows).map distinct) := by
    rw [← List.map_id (mergeClusterResults r (sourcesOf r parts))]
    apply merged_perm r apart perm
    intro key present
    obtain ⟨row,inside,named⟩ := (mine_exists r).mp present
    have settled : Settles key := named ▸ settles row (List.mem_of_mem_filter inside)
    exact joined_exact r named settled (pieces_perm r perm key) (fits key)
  have first := arranged_sorted r (f := id) (fun _ => rfl) (mergedOf (sourcesOf r parts)).values
  rw [List.map_id] at first
  have second := arranged_sorted r (f := distinct) (fun _ => rfl) (groupsOf r rows).values
  have ids : ((mergeClusterResults r (sourcesOf r parts)).map (·.clusterId)).Nodup := by
    have named := whole.map (·.clusterId)
    rw [List.map_map] at named
    exact named.nodup_iff.mpr (clusterSessions_ids r apart)
  exact arranged_unique r whole ids first second

-- The hosts' clusters merge to those of all rows, a repeated session id aside.
theorem hosts_merge (apart : Apart r rows) (perm : List.Perm parts.flatten rows) :
    ((mergeClusterResults r (sourcesOf r parts)).map fun group => (group.clusterId,group.count)).Perm
      ((clusterSessions r rows).map fun group => (group.clusterId,group.count)) ∧
    ((∀ key, Fits r (mine r rows key)) → (∀ row ∈ rows, Settles (clusterKey r row)) →
      mergeClusterResults r (sourcesOf r parts) = (clusterSessions r rows).map distinct ∧
      ∀ others, others.Perm rows → clusterSessions r others = clusterSessions r rows) := by
  constructor
  · apply merged_perm r apart perm
    intro key _
    simp only [sorted,made_fields,joined,newGroup,(pieces_perm r perm key).length_eq]
  · intro fits settles
    exact ⟨merged_exact r apart perm fits settles,fun others same => clusterSessions_congr r apart same fits⟩

end Sessions

-- One session, seen on two hosts; SHA-256 as it is on the one payload there is.
def demoReading : Reading Int :=
  { casefold := fun value => value.map fun c => if 65 ≤ c ∧ c ≤ 90 then c + 32 else c
    bucket := fun | some (.int n) => n / 60 | _ => 0
    bucketStart := fun bucket => bucket * 60
    sha256 := fun _ => 0x6a2758b748d596d8da8276c0f3786465ea49d4fb438049c5eef642fcbaebf618 }

def demoRow (host : String) : Value := .dict
  [(str "project",.text (str "/work/app")),(str "agent",.text (str "dsh")),(str "updated_at",.int 100),
    (str "session_id",.text (str "a")),(str "host",.text (str host)),(str "extra",.dict [(str "model",.text (str "m"))])]

def demoRows : List Value := [demoRow "pod-a",demoRow "pod-b"]
def demoParts : List (List Value) := [[demoRow "pod-a"],[demoRow "pod-b"]]
def demoKey : Key := ⟨str "/work/app",str "dsh",str "m",str "unknown",1⟩

theorem demo_keyed : ∀ row ∈ demoRows, clusterKey demoReading row = demoKey := by decide

theorem demo_apart : Apart demoReading demoRows := fun a ina b inb _ =>
  (demo_keyed a (List.mem_of_mem_filter ina)).trans (demo_keyed b (List.mem_of_mem_filter inb)).symm

theorem demo_mine (key : Key) : mine demoReading demoRows key = [] ∨ mine demoReading demoRows key = demoRows := by
  by_cases same : key = demoKey
  · subst same
    exact .inr rfl
  · left
    apply List.filter_eq_nil_iff.mpr
    intro row inside
    rw [demo_keyed row (List.mem_of_mem_filter inside),decide_eq_true_eq]
    exact fun again => same again.symm

theorem demo_fits (key : Key) : Fits demoReading (mine demoReading demoRows key) := by
  rcases demo_mine key with none_there | all_there
  · rw [none_there]
    exact ⟨by decide,by decide,fun _ inside => nomatch inside⟩
  · rw [all_there]
    exact ⟨by decide,by decide,by decide⟩

theorem demo_settles : ∀ row ∈ demoRows, Settles (clusterKey demoReading row) := by
  intro row inside
  rw [demo_keyed row inside]
  exact ⟨by unfold Settled; decide,by unfold Settled; decide,by unfold Settled; decide,by unfold Settled; decide⟩

theorem demo_hosts_merge :
    mergeClusterResults demoReading (sourcesOf demoReading demoParts) = (clusterSessions demoReading demoRows).map distinct :=
  ((hosts_merge demoReading demo_apart (List.Perm.refl demoParts.flatten)).2 demo_fits demo_settles).1

-- All rows together name the session twice; the hosts' clusters merge to its name once.
theorem repeated_session_differs :
    mergeClusterResults demoReading (sourcesOf demoReading demoParts) ≠ clusterSessions demoReading demoRows := by
  intro same
  have present : mine demoReading demoRows demoKey ≠ [] := by
    change demoRows ≠ []
    decide
  have twice : sorted demoReading (made demoReading demoKey demoRows) ∈ clusterSessions demoReading demoRows :=
    (clusterSessions_perm demoReading demoRows).mem_iff.mpr
      (List.mem_map.mpr ⟨demoKey,(groupsOf_keys demoReading demoRows).mpr present,rfl⟩)
  have pair : (sorted demoReading (made demoReading demoKey demoRows)).sessionIds.length = 2 :=
    (sortBy_perm id _).length_eq
  rw [← same,merged_exact demoReading demo_apart (List.Perm.refl demoParts.flatten) demo_fits demo_settles] at twice
  obtain ⟨group,there,again⟩ := List.mem_map.mp twice
  have once : (sorted demoReading (made demoReading demoKey demoRows)).sessionIds.Nodup := by
    rw [← again]
    exact List.nodup_dedup _
  have held : ∀ name ∈ (sorted demoReading (made demoReading demoKey demoRows)).sessionIds, name = str "a" := by
    intro name inside
    have : name ∈ [str "a",str "a"] := (sortBy_perm id _).mem_iff.mp inside
    simpa using this
  have few : (sorted demoReading (made demoReading demoKey demoRows)).sessionIds.length ≤ [str "a"].length :=
    (List.subperm_of_subset once fun name inside => List.mem_singleton.mpr (held name inside)).length_le
  rw [pair] at few
  exact absurd few (by decide)

end AgentSideCar.Cluster
