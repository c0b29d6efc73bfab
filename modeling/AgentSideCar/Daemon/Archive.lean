import Mathlib.Data.Prod.Lex
import Mathlib.Data.String.Basic
import AgentSideCar.Tail.Pool

namespace AgentSideCar.Daemon
open Tail

abbrev SessionKey := Lex (String × String)
instance : LawfulBEq SessionKey := inferInstance

abbrev Row := Session SessionKey

def agentOf (key : SessionKey) : String := (ofLex key).1

inductive ArchiveReason | manual | batch | auto
  deriving DecidableEq

structure ArchiveEntry where
  target : SessionKey
  archivedAt : Int
  reason : ArchiveReason
  deriving DecidableEq

def maxArchiveEntries : Nat := 4096
def minThresholdSeconds : Int := 60
def maxThresholdSeconds : Int := 365 * 24 * 60 * 60

-- The registry file, as the entries it loads to.
abbrev Registry := List ArchiveEntry

def validTarget (key : SessionKey) : Bool := (ofLex key).1 ≠ "" && (ofLex key).2 ≠ ""

def stored (entries : Registry) : Registry :=
  if maxArchiveEntries < entries.length then
    let retained := entries.insertionSort fun a b => a.archivedAt ≤ b.archivedAt
    retained.drop (retained.length - maxArchiveEntries)
  else entries

-- None where the call raises ArchiveError; `loads` and `stores` tell what the file does.
def archive (loads stores : Bool) (wanted : List SessionKey) (reason : ArchiveReason) (now : Int) (registry : Registry) :
    Option Registry :=
  if wanted.any (!validTarget ·) then none
  else if wanted = [] then some registry
  else if !loads then none
  else
    let known := registry.map (·.target)
    let added := (wanted.reverse.dedup.reverse.filter (· ∉ known)).map (⟨·,now,reason⟩)
    if added = [] then some registry else if stores then some (stored (registry ++ added)) else none

def unarchive (loads stores : Bool) (wanted : List SessionKey) (registry : Registry) : Option Registry :=
  if wanted.any (!validTarget ·) then none
  else if wanted = [] then some registry
  else if !loads then none
  else if registry.all (·.target ∉ wanted) then some registry
  else if stores then some (stored (registry.filter (·.target ∉ wanted))) else none

def unarchiveAll (loads stores : Bool) (registry : Registry) : Option Registry :=
  if !loads then none else if registry = [] then some registry else if stores then some [] else none

def selectArchivable (idleSeconds now : Int) (rows : List Row) : List Row :=
  rows.filter fun row => (row.status = .idle || row.status = .dead) && decide (idleSeconds ≤ now - row.updatedAt)

def entryOf (registry : Registry) (row : Row) : Option ArchiveEntry :=
  if validTarget row.key then registry.find? (·.target = row.key) else none

def hides (entry : ArchiveEntry) (row : Row) : Bool := row.updatedAt ≤ entry.archivedAt

def hidden (registry : Registry) (row : Row) : Bool := (entryOf registry row).any (hides · row)

def released (registry : Registry) (row : Row) : Bool := (entryOf registry row).any (!hides · row)

-- The visible rows, and the registry without the entries activity has released.
def partition (loads stores : Bool) (rows : List Row) (registry : Registry) : Option (List Row × Registry) :=
  if !loads then none
  else
    let visible := rows.filter (!hidden registry ·)
    let gone := (rows.filter (released registry ·)).map (·.key)
    if gone = [] then some (visible,registry)
    else if stores then some (visible,stored (registry.filter (·.target ∉ gone))) else none

end AgentSideCar.Daemon
