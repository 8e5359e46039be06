import EventBus.Multimap.Iterator
import EventBus.Transition.Run
import Mathlib.Logic.Function.Basic

/-!
# `ClientCenter` and the lives of threads and clients

The center maps thread ids to clients. `EventClient::EventClient` enters the client under the id of
the constructing thread, `EventTarget::EventTarget` looks up the client of its own thread, and
`~ClientCenter` deletes whatever the map holds at the end. `~EventClient` does not tell the center.

`Process` is the rest of the program as the center sees it: which thread ids are running, which
clients have been built, and which of them still exist. A thread id can be used again once its
thread has ended, so a *life* stands for one run of a thread and is never used again.
-/

namespace EventBus

open Transition

abbrev ThreadId := Nat

/-- A client object, told apart from every other client ever built. -/
abbrev ClientRef := Nat

/-! ## The center -/

/-- `_client_pool` is a map: `insert` below never puts a second client under an id. -/
structure ClientCenter where
  clientPool : Multimap ThreadId ClientRef

namespace ClientCenter

/-- The center after `ClientCenter::ClientCenter`. -/
def fresh : ClientCenter := ⟨.empty⟩

/-- `std::map::insert` keeps what is already there under the id. -/
def registerClient (id : ThreadId) (client : ClientRef) (c : ClientCenter) : Bool × ClientCenter :=
  if c.clientPool.find id = none then (true, ⟨c.clientPool.insert id client⟩) else (false, c)

def findClient (id : ThreadId) (c : ClientCenter) : Option ClientRef :=
  let it := c.clientPool.find id
  if it = none then none else (c.clientPool.deref it).map Node.val

/-- The clients `~ClientCenter` deletes, one after the other. -/
def deletes (c : ClientCenter) : List ClientRef := c.clientPool.nodes.map Node.val

theorem findClient_eq (id : ThreadId) (c : ClientCenter) :
    c.findClient id = (c.clientPool.under id).head?.map Node.val := by
  unfold findClient
  rw [Multimap.find_eq]
  cases hu : c.clientPool.under id with
  | nil => rfl
  | cons a as =>
      have ha : a ∈ c.clientPool.nodes := (Multimap.mem_under.mp (hu ▸ List.mem_cons_self)).1
      simp [Multimap.deref_of_mem ha]

theorem find_eq_none_iff {id : ThreadId} {c : ClientCenter} :
    c.clientPool.find id = none ↔ c.findClient id = none := by
  rw [findClient_eq, Multimap.find_eq, Option.map_eq_none_iff, Option.map_eq_none_iff]

theorem mem_deletes_of_findClient {id : ThreadId} {client : ClientRef} {c : ClientCenter}
    (h : c.findClient id = some client) : client ∈ c.deletes := by
  rw [findClient_eq, Option.map_eq_some_iff] at h
  obtain ⟨n, hn, hval⟩ := h
  have hmem := Multimap.mem_under.mp (List.mem_of_mem_head? hn)
  exact List.mem_map.mpr ⟨n, hmem.1, hval⟩

/-- A second client for an id is not entered. -/
theorem registerClient_again {id : ThreadId} {c : ClientCenter} (client : ClientRef)
    (h : c.findClient id ≠ none) : c.registerClient id client = (false, c) := by
  rw [registerClient, if_neg (mt find_eq_none_iff.mp h)]

section
variable {id : ThreadId} {c : ClientCenter} (client : ClientRef)

theorem registerClient_first (h : c.findClient id = none) :
    c.registerClient id client = (true, ⟨c.clientPool.insert id client⟩) := by
  rw [registerClient, if_pos (find_eq_none_iff.mpr h)]

theorem findClient_registerClient_self (h : c.findClient id = none) :
    (c.registerClient id client).2.findClient id = some client := by
  have hunder : c.clientPool.under id = [] := by
    rw [← Multimap.find_eq_none, find_eq_none_iff]
    exact h
  rw [registerClient_first client h, findClient_eq, Multimap.under_insert_self, hunder]
  rfl

theorem findClient_registerClient_of_ne (h : c.findClient id = none) {id' : ThreadId}
    (hne : id ≠ id') : (c.registerClient id client).2.findClient id' = c.findClient id' := by
  rw [registerClient_first client h, findClient_eq, findClient_eq,
    Multimap.under_insert_of_ne _ client hne]

/-- Whether or not the client is entered, nothing changes for any other id. -/
theorem findClient_registerClient_other {id' : ThreadId} (hne : id ≠ id') :
    (c.registerClient id client).2.findClient id' = c.findClient id' := by
  by_cases h : c.findClient id = none
  · exact findClient_registerClient_of_ne client h hne
  · rw [registerClient_again client h]

/-- Afterwards the ids with a client are those from before and the one registered. -/
theorem findClient_registerClient_ne_none (id' : ThreadId) :
    (c.registerClient id client).2.findClient id' ≠ none ↔
      c.findClient id' ≠ none ∨ id = id' := by
  by_cases hfound : c.findClient id = none
  · by_cases hid : id = id'
    · subst hid
      rw [findClient_registerClient_self client hfound]
      simp
    · rw [findClient_registerClient_of_ne client hfound hid]
      simp [hid]
  · rw [registerClient_again client hfound]
    grind

theorem deletes_registerClient (h : c.findClient id = none) :
    (c.registerClient id client).2.deletes.Perm (client :: c.deletes) := by
  rw [registerClient_first client h]
  exact (Multimap.nodes_insert_perm c.clientPool id client).map Node.val

end
end ClientCenter

/-! ## The process -/

/-- What there is at one moment of a run: the center, the life of each running thread, how many
lives have begun, the life in which each client was built, and the clients not yet destroyed. -/
structure Process where
  center : ClientCenter
  running : ThreadId → Option Nat
  lives : Nat
  builders : List Nat
  remaining : List ClientRef

inductive Event
  | start (id : ThreadId)
  | exit (id : ThreadId)
  | construct (id : ThreadId)
  | destroy (client : ClientRef)
  deriving DecidableEq, Repr

namespace Process

/-- Nothing has happened: not even the main thread has been started. -/
def initial : Process := ⟨.fresh, fun _ => none, 0, [], []⟩

/-- One event, where it is possible. A thread starts under an id that is not in use, only a running
thread constructs a client, and only a client that exists is destroyed. -/
def next (s : Process) : Event → Option Process
  | .start id =>
      if s.running id = none then
        some { s with running := Function.update s.running id (some s.lives), lives := s.lives + 1 }
      else none
  | .exit id =>
      if s.running id = none then none
      else some { s with running := Function.update s.running id none }
  | .construct id =>
      match s.running id with
      | none => none
      | some life =>
          -- `EventClient::EventClient` registers itself and drops the result
          let client := s.builders.length
          some { s with
            center := (s.center.registerClient id client).2
            builders := s.builders ++ [life]
            remaining := s.remaining ++ [client] }
  | .destroy client =>
      -- `~EventClient` closes its sockets and leaves the center alone
      if client ∈ s.remaining then some { s with remaining := s.remaining.erase client } else none

def Step (s : Process) (e : Event) (t : Process) : Prop := s.next e = some t

/-- The client an `EventTarget` constructed on the thread attaches to. -/
def attach (id : ThreadId) (s : Process) : Option ClientRef := s.center.findClient id

end Process
end EventBus
