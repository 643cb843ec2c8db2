/-
# UserProfileFailover -- reading and writing one user through outages

In slave mode every call chooses between the master and the slave of the user's
node afresh (`RedisCluster.chooseClient`): the master if it can be reached, else
the slave (`Links.server_eq`).  What is written on the master is copied to the
slave at once; nothing is copied back.

A run is a list of calls, each with the state of the two servers while it is
made.  `served` records the puts that answered 0, newest first, with the server
that took them.  The slave always holds the newest put and the master the newest
it has taken itself (`Replicated`), so a get that falls back on the slave, or
that follows a put on the master, reads the newest profile
(`get_reads_newest`).  A put made during an outage of the master is not seen
once the master is back (`Outage`).
-/
import RecommEngine.UserProfileStorage
import RecommEngine.Redis.RedisCluster

namespace RecommEngine

set_option autoImplicit false

open Theory.Run Theory.ByteStream Idl Redis

inductive Server where
  | master
  | slave
  deriving DecidableEq

/-- The two servers while a call is made: which can be reached, and to which the
connection still works.  A server that can be reached accepts a reconnect. -/
structure Links where
  masterUp : Bool
  slaveUp : Bool
  masterConnected : Bool := true
  slaveConnected : Bool := true

namespace Links

def outcomes (links : Links) : RedisCluster.Outcomes where
  pingMaster := links.masterUp && links.masterConnected
  reconnectMaster := links.masterUp
  pingSlave := links.slaveUp && links.slaveConnected
  reconnectLast := links.slaveUp

/-- The server `GetRedisNode` hands out, with `is_open_slave` set. -/
def server (links : Links) : Option Server :=
  match RedisCluster.chooseClient 1 ⟨some .master, some .slave⟩ links.outcomes with
  | .ok (true, server) => some server
  | _ => none

theorem server_eq (links : Links) :
    links.server = if links.masterUp then some .master else
      if links.slaveUp then some .slave else none := by
  obtain ⟨masterUp, slaveUp, masterConnected, slaveConnected⟩ := links
  revert masterUp slaveUp masterConnected slaveConnected
  decide

end Links

/-- The value of one user on the two servers of its node. -/
structure ReplicatedStore where
  master : Option Bytes
  slave : Option Bytes

namespace ReplicatedStore

def read (s : ReplicatedStore) : Server → Option Bytes
  | .master => s.master
  | .slave => s.slave

/-- A write on the master reaches the slave at once. -/
def write (s : ReplicatedStore) (value : Bytes) : Server → ReplicatedStore
  | .master => ⟨some value, some value⟩
  | .slave => { s with slave := some value }

end ReplicatedStore

structure FailoverStorage where
  store : ReplicatedStore
  served : List (Server × UserProfile) := []

inductive FailoverEvent where
  | put (profile : UserProfile) (links : Links) (accepted : Bool)
  | get (links : Links) (answered : Bool)

namespace FailoverStorage

variable (T : Thrift UserProfile)

/-- `PutUserProfile` without an increment; `accepted` is the answer of SETEX. -/
def putUserProfile (s : FailoverStorage) (profile : UserProfile) (links : Links)
    (accepted : Bool) : Nat × FailoverStorage :=
  match links.server with
  | none => (2, s)
  | some server =>
      if accepted then
        (0, ⟨s.store.write (T.thriftToString profile) server, (server, profile) :: s.served⟩)
      else (2, s)

/-- `GetUserProfile`; `answered` says whether GET came back without an error. -/
def getUserProfile (s : FailoverStorage) (links : Links) (answered : Bool)
    (profile : UserProfile) : Nat × UserProfile :=
  match links.server with
  | none => RecommEngine.getUserProfile T none profile
  | some server =>
      RecommEngine.getUserProfile T (if answered then some (s.store.read server) else none) profile

def step (s : FailoverStorage) : FailoverEvent → FailoverStorage
  | .put profile links accepted => (s.putUserProfile T profile links accepted).2
  | .get _ _ => s

/-- What is relied on of thrift: a profile that is put is read back. -/
def Readable : FailoverEvent → Prop
  | .put profile _ _ => T.ReadsBack blankProfile profile
  | .get _ _ => True

/-- The newest put a server has got, directly or as a copy. -/
def newest (s : FailoverStorage) : Server → Option (Server × UserProfile)
  | .master => s.served.find? fun put => put.1 = .master
  | .slave => s.served.head?

/-- Each server holds the newest put it has got, or what it held at the start. -/
structure Replicated (start : ReplicatedStore) (s : FailoverStorage) : Prop where
  held : ∀ server, s.store.read server =
    ((s.newest server).map fun put => T.thriftToString put.2).or (start.read server)
  readable : ∀ put ∈ s.served, T.ReadsBack blankProfile put.2

variable {T} {start : ReplicatedStore}

theorem Replicated.put {s : FailoverStorage} {profile : UserProfile} {links : Links}
    {accepted : Bool} (replicated : Replicated T start s)
    (inverts : T.ReadsBack blankProfile profile) :
    Replicated T start (s.putUserProfile T profile links accepted).2 := by
  unfold putUserProfile
  cases links.server with
  | none => exact replicated
  | some server =>
      cases accepted with
      | false => exact replicated
      | true =>
          refine ⟨?_, ?_⟩
          · have master := replicated.held .master
            intro other
            cases server <;> cases other
            · rfl
            · rfl
            · exact master
            · rfl
          · intro put inside
            rcases List.mem_cons.mp inside with rfl | old
            · exact inverts
            · exact replicated.readable put old

theorem replicated_run (start : ReplicatedStore) {es : List FailoverEvent}
    (readable : ∀ e ∈ es, Readable T e) : Replicated T start (run (step T) ⟨start, []⟩ es) := by
  have initial : Replicated T start ⟨start, []⟩ :=
    ⟨fun server => by cases server <;> rfl, by simp⟩
  refine run_history (I := fun _ s => Replicated T start s) initial ?_ es (List.prefix_refl _)
  intro past e inside replicated
  cases e with
  | put profile links accepted =>
      exact replicated.put (readable (.put profile links accepted) (inside.subset (by simp)))
  | get links answered => exact replicated

/-- A get that answers 0 reads the newest put of the server it is sent to. -/
theorem Replicated.get {s : FailoverStorage} {links : Links} {answered : Bool}
    {result : UserProfile} (replicated : Replicated T start s)
    (read : s.getUserProfile T links answered blankProfile = (0, result)) :
    ∃ server, links.server = some server ∧ ∀ put ∈ s.newest server, result = put.2 := by
  unfold getUserProfile at read
  cases chosen : links.server with
  | none =>
      rw [chosen] at read
      cases read
  | some server =>
      refine ⟨server, rfl, ?_⟩
      intro put found
      cases answered with
      | false =>
          rw [chosen] at read
          cases read
      | true =>
          have inside : put ∈ s.served := by
            cases server with
            | master => exact List.mem_of_find?_eq_some found
            | slave => exact List.mem_of_head? found
          have stored := replicated.held server
          rw [Option.mem_def.mp found, Option.map_some, Option.some_or] at stored
          simp only [chosen, if_true, stored,
            getUserProfile_of_readsBack (replicated.readable put inside), Prod.mk.injEq] at read
          exact read.2.symm

/-- **Reads through outages.**  In every run a get into a blank profile that answers 0
yields the newest put that answered 0, if that put was taken by the master or the get
is answered by the slave; a get answered by the master yields the newest put the master
took. -/
theorem get_reads_newest (T : Thrift UserProfile) (start : ReplicatedStore)
    (es : List FailoverEvent) (readable : ∀ e ∈ es, Readable T e) (links : Links)
    (answered : Bool) (result : UserProfile)
    (read : (run (step T) ⟨start, []⟩ es).getUserProfile T links answered blankProfile =
      (0, result)) :
    (∀ put ∈ (run (step T) ⟨start, []⟩ es).served.head?,
      put.1 = .master ∨ links.server = some .slave → result = put.2) ∧
    (links.server = some .master →
      ∀ put ∈ (run (step T) ⟨start, []⟩ es).served.find? fun put => put.1 = .master,
        result = put.2) := by
  obtain ⟨server, chosen, newest⟩ := (replicated_run start readable).get read
  cases server with
  | slave =>
      refine ⟨fun put newer _ => newest put newer, ?_⟩
      intro other
      rw [chosen] at other
      cases other
  | master =>
      refine ⟨?_, fun _ put newer => newest put newer⟩
      intro put newer taken
      rcases taken with byMaster | bySlave
      · -- The newest of all is then the newest of the master's.
        apply newest put
        cases puts : (run (step T) ⟨start, []⟩ es).served with
        | nil => simp [puts] at newer
        | cons first rest =>
            rw [puts, List.head?_cons, Option.mem_def, Option.some.injEq] at newer
            simp [FailoverStorage.newest, puts, newer, byMaster]
      · rw [chosen] at bySlave
        cases bySlave

end FailoverStorage

/-! ## A put during an outage -/

namespace Outage

open LostClick

def bothUp : Links := ⟨true, true, true, true⟩

def masterDown : Links := ⟨false, true, true, true⟩

/-- The second put is made while the master is down. -/
def duringOutage : List FailoverEvent :=
  [.put (user [(5, 1)]) bothUp true, .put (user [(5, 3)]) masterDown true]

def after (es : List FailoverEvent) : FailoverStorage :=
  run (FailoverStorage.step thrift) ⟨⟨none, none⟩, []⟩ es

theorem readable : ∀ e ∈ duringOutage, FailoverStorage.Readable thrift e := by
  simp only [duringOutage, List.mem_cons, List.not_mem_nil, or_false]
  rintro e (rfl | rfl)
  · exact inverts _ (by simp [profiles])
  · exact inverts _ (by simp [profiles])

/-- Both puts answer 0, and with the master back a get answers 0 with the first profile. -/
theorem put_during_outage_unseen :
    (∀ e ∈ duringOutage, FailoverStorage.Readable thrift e) ∧
      (after duringOutage).served = [(.slave, user [(5, 3)]), (.master, user [(5, 1)])] ∧
      (after duringOutage).getUserProfile thrift bothUp true blankProfile =
        (0, user [(5, 1)]) ∧
      user [(5, 1)] ≠ user [(5, 3)] := by
  refine ⟨readable, rfl, rfl, ?_⟩
  intro same
  have weights := congrArg (fun p : UserProfile => p.keywords[(5 : Int64)]?) same
  revert weights
  decide

/-- While the master is down the put is seen. -/
theorem put_during_outage_seen :
    ∃ result, (after duringOutage).getUserProfile thrift masterDown true blankProfile =
      (0, result) ∧ result = user [(5, 3)] := by
  have newest := FailoverStorage.get_reads_newest thrift ⟨none, none⟩ duringOutage readable
    masterDown true (user [(5, 3)]) rfl
  exact ⟨user [(5, 3)], rfl, newest.1 _ rfl (Or.inr rfl)⟩

end Outage

end RecommEngine
