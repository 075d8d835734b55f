import Mathlib.Data.Finset.Card
import CppPractice.Lib.Machine
import CppPractice.Redis.Socket

/-!
# Pool — `connection_pool`

`acquire` hands out the connection released last, or opens a new one; `release` keeps every
connection it is given.  The limits are stored, and nothing compares anything with them.

`World` adds what the callers know: every connection opened so far, and those handed out and not
yet released.  The operating system gives a new connection an address and a descriptor that no other
open connection has; descriptors are less than `INT_MAX`, and the pool closes none.
-/

namespace CppPractice
namespace Redis

/-- A `connection *` with the descriptor of the object it points to. -/
structure ConnectionPtr where
  address : Nat
  socket : Nat
  deriving DecidableEq, Repr

structure Pool where
  host : Bytes
  port : Int
  maxConnections : Int
  maxIdle : Int
  connectionsIdle : List ConnectionPtr
  connectionsInUse : Finset ConnectionPtr
  deriving DecidableEq

namespace Pool

/-- The constructor `connection_pool(host, port, max_connections)`. -/
def make (host : Bytes) (port maxConnections : Int) : Pool :=
  { host := host
    port := port
    maxConnections := maxConnections
    maxIdle := maxConnections
    connectionsIdle := []
    connectionsInUse := ∅ }

/-- `connection_pool::acquire`; `opened` is what `new connection(_host, _port)` gives, where the
constructor throwing is `none`.  The result `none` is the exception. -/
def acquire (p : Pool) (opened : Option ConnectionPtr) : Option ConnectionPtr × Pool :=
  match p.connectionsIdle.getLast? with
  | some conn =>
      (some conn, { p with
        connectionsIdle := p.connectionsIdle.dropLast
        connectionsInUse := insert conn p.connectionsInUse })
  | none =>
      match opened with
      | some conn => (some conn, { p with connectionsInUse := insert conn p.connectionsInUse })
      | none => (none, p)

/-- `connection_pool::release`; erasing the end iterator is undefined. -/
def release (p : Pool) (conn : ConnectionPtr) : Option Pool :=
  if conn ∈ p.connectionsInUse then
    some { p with
      connectionsInUse := p.connectionsInUse.erase conn
      connectionsIdle := p.connectionsIdle ++ [conn] }
  else
    none

def getMaxConnections (p : Pool) : Int := p.maxConnections

def getMaxIdle (p : Pool) : Int := p.maxIdle

/-- The `size_t` is converted to `int`. -/
def getIdleCount (p : Pool) : Int := toInt p.connectionsIdle.length

def getInUseCount (p : Pool) : Int := toInt p.connectionsInUse.card

/-- The sum of the two `int`s. -/
def getConnectionsCount (p : Pool) : Int := p.getIdleCount + p.getInUseCount

end Pool

/-! ## The pool and its callers -/

structure World where
  pool : Pool
  opened : List ConnectionPtr
  held : List ConnectionPtr

inductive Action
  | acquire (opened : Option ConnectionPtr)
  | release (conn : ConnectionPtr)

def intMax : Nat := 2147483647

namespace World

def start (host : Bytes) (port maxConnections : Int) : World :=
  { pool := Pool.make host port maxConnections, opened := [], held := [] }

/-- What the operating system may give for a new connection: every earlier one is still open. -/
structure Opens (w : World) (conn : ConnectionPtr) : Prop where
  socket_lt : conn.socket < intMax
  fresh : ∀ c ∈ w.opened, c.address ≠ conn.address ∧ c.socket ≠ conn.socket

def acquire (w : World) (opened : Option ConnectionPtr) : World :=
  let r := w.pool.acquire opened
  { pool := r.2
    opened := if w.pool.connectionsIdle = [] then w.opened ++ opened.toList else w.opened
    held := w.held ++ r.1.toList }

/-- `release` is only called with a connection that is handed out. -/
inductive Step : World → Action → World → Prop
  | acquire {w : World} {opened : Option ConnectionPtr} (h : ∀ conn ∈ opened, w.Opens conn) :
      Step w (.acquire opened) (w.acquire opened)
  | release {w : World} {conn : ConnectionPtr} {p : Pool} (h : conn ∈ w.held)
      (hp : w.pool.release conn = some p) :
      Step w (.release conn) { w with pool := p, held := w.held.erase conn }

end World

def poolMachine (host : Bytes) (port maxConnections : Int) : Machine World Action :=
  { init := fun w => w = World.start host port maxConnections, step := World.Step }

/-! ## The invariant -/

/-- Every connection opened is idle or handed out, and no two are the same. -/
structure World.Sound (w : World) : Prop where
  sockets : (w.opened.map ConnectionPtr.socket).Nodup
  sockets_lt : ∀ conn ∈ w.opened, conn.socket < intMax
  places : w.opened.Perm (w.pool.connectionsIdle ++ w.held)
  in_use : w.pool.connectionsInUse = w.held.toFinset

namespace World.Sound

variable {w : World}

theorem nodup (h : w.Sound) : (w.pool.connectionsIdle ++ w.held).Nodup :=
  h.places.nodup_iff.1 (List.Nodup.of_map _ h.sockets)

theorem idle_nodup (h : w.Sound) : w.pool.connectionsIdle.Nodup := (List.nodup_append.1 h.nodup).1

theorem held_nodup (h : w.Sound) : w.held.Nodup := (List.nodup_append.1 h.nodup).2.1

theorem not_held_of_idle (h : w.Sound) {conn : ConnectionPtr} (hidle : conn ∈ w.pool.connectionsIdle) :
    conn ∉ w.held := by
  intro hheld
  exact (List.nodup_append.1 h.nodup).2.2 conn hidle conn hheld rfl

theorem mem_in_use (h : w.Sound) {conn : ConnectionPtr} :
    conn ∈ w.pool.connectionsInUse ↔ conn ∈ w.held := by
  rw [h.in_use, List.mem_toFinset]

theorem card_in_use (h : w.Sound) : w.pool.connectionsInUse.card = w.held.length := by
  rw [h.in_use, List.toFinset_card_of_nodup h.held_nodup]

theorem opened_length (h : w.Sound) :
    w.opened.length = w.pool.connectionsIdle.length + w.held.length := by
  rw [h.places.length_eq, List.length_append]

/-- There are no more connections than descriptors. -/
theorem opened_length_le (h : w.Sound) : w.opened.length ≤ intMax := by
  -- The descriptors are distinct and all below `INT_MAX`.
  have hsub : (w.opened.map ConnectionPtr.socket).toFinset ⊆ Finset.range intMax := by
    intro n hn
    rcases List.mem_map.1 (List.mem_toFinset.1 hn) with ⟨conn, hconn, rfl⟩
    exact Finset.mem_range.2 (h.sockets_lt conn hconn)
  calc w.opened.length = (w.opened.map ConnectionPtr.socket).length := (List.length_map _).symm
    _ = (w.opened.map ConnectionPtr.socket).toFinset.card :=
        (List.toFinset_card_of_nodup h.sockets).symm
    _ ≤ (Finset.range intMax).card := Finset.card_le_card hsub
    _ = intMax := Finset.card_range _

theorem idleCount_eq (h : w.Sound) : w.pool.getIdleCount = w.pool.connectionsIdle.length := by
  have hle := h.opened_length_le
  have hlength := h.opened_length
  refine toInt_of_lt ?_
  unfold intMax at hle
  omega

theorem inUseCount_eq (h : w.Sound) : w.pool.getInUseCount = w.held.length := by
  have hle := h.opened_length_le
  have hlength := h.opened_length
  rw [Pool.getInUseCount, h.card_in_use]
  refine toInt_of_lt ?_
  unfold intMax at hle
  omega

theorem connectionsCount_eq (h : w.Sound) : w.pool.getConnectionsCount = w.opened.length := by
  rw [Pool.getConnectionsCount, h.idleCount_eq, h.inUseCount_eq, h.opened_length]
  push_cast
  rfl

/-! ### What the operations do -/

theorem acquire_idle {conn : ConnectionPtr} {idle : List ConnectionPtr}
    (hidle : w.pool.connectionsIdle = idle ++ [conn]) (opened : Option ConnectionPtr) :
    w.acquire opened =
      { w with
        pool := { w.pool with
          connectionsIdle := idle
          connectionsInUse := insert conn w.pool.connectionsInUse }
        held := w.held ++ [conn] } := by
  simp [World.acquire, Pool.acquire, hidle]

theorem acquire_new (hidle : w.pool.connectionsIdle = []) (conn : ConnectionPtr) :
    w.acquire (some conn) =
      { pool := { w.pool with connectionsInUse := insert conn w.pool.connectionsInUse }
        opened := w.opened ++ [conn]
        held := w.held ++ [conn] } := by
  simp [World.acquire, Pool.acquire, hidle]

theorem acquire_throws (hidle : w.pool.connectionsIdle = []) : w.acquire none = w := by
  simp [World.acquire, Pool.acquire, hidle]

theorem release_held (h : w.Sound) {conn : ConnectionPtr} (hheld : conn ∈ w.held) :
    w.pool.release conn = some { w.pool with
      connectionsInUse := w.pool.connectionsInUse.erase conn
      connectionsIdle := w.pool.connectionsIdle ++ [conn] } :=
  if_pos (h.mem_in_use.2 hheld)

/-- What one step can do. -/
theorem step_cases (h : w.Sound) {a : Action} {w' : World} (hstep : World.Step w a w') :
    (∃ idle conn, w.pool.connectionsIdle = idle ++ [conn] ∧
      w' = { w with
        pool := { w.pool with
          connectionsIdle := idle
          connectionsInUse := insert conn w.pool.connectionsInUse }
        held := w.held ++ [conn] }) ∨
    (∃ conn, w.pool.connectionsIdle = [] ∧ w.Opens conn ∧
      w' = { pool := { w.pool with connectionsInUse := insert conn w.pool.connectionsInUse }
             opened := w.opened ++ [conn]
             held := w.held ++ [conn] }) ∨
    w' = w ∨
    (∃ conn, conn ∈ w.held ∧
      w' = { w with
        pool := { w.pool with
          connectionsInUse := w.pool.connectionsInUse.erase conn
          connectionsIdle := w.pool.connectionsIdle ++ [conn] }
        held := w.held.erase conn }) := by
  cases hstep with
  | @acquire opened hopens =>
      -- Only with an empty idle vector does the constructor run, and it may throw.
      rcases List.eq_nil_or_concat w.pool.connectionsIdle with hnil | ⟨idle, conn, hidle⟩
      · cases opened with
        | none => exact Or.inr (Or.inr (Or.inl (acquire_throws hnil)))
        | some conn => exact Or.inr (Or.inl ⟨conn, hnil, hopens conn rfl, acquire_new hnil conn⟩)
      · rw [List.concat_eq_append] at hidle
        exact Or.inl ⟨idle, conn, hidle, acquire_idle hidle opened⟩
  | @release conn p hheld hp =>
      rw [h.release_held hheld] at hp
      cases hp
      exact Or.inr (Or.inr (Or.inr ⟨conn, hheld, rfl⟩))

theorem start (host : Bytes) (port maxConnections : Int) :
    (World.start host port maxConnections).Sound := by
  refine ⟨?_, ?_, ?_, rfl⟩
  · exact List.nodup_nil
  · simp [World.start]
  · exact List.Perm.refl []

theorem step (h : w.Sound) {a : Action} {w' : World} (hstep : World.Step w a w') : w'.Sound := by
  rcases h.step_cases hstep with ⟨idle, conn, hidle, rfl⟩ | ⟨conn, hidle, hopens, rfl⟩ | rfl |
    ⟨conn, hheld, rfl⟩
  · -- The last idle connection is handed out.
    refine ⟨h.sockets, h.sockets_lt, ?_, ?_⟩
    · refine h.places.trans ?_
      rw [hidle, List.append_assoc]
      exact List.perm_append_comm.append_left idle
    · simp [h.in_use]
  · -- A new connection is handed out.
    refine ⟨?_, ?_, ?_, ?_⟩
    · rw [List.map_append, List.nodup_append]
      refine ⟨h.sockets, List.nodup_singleton _, ?_⟩
      intro n hn m hm
      rcases List.mem_map.1 hn with ⟨c, hc, rfl⟩
      rw [List.mem_singleton.1 hm]
      exact (hopens.fresh c hc).2
    · intro c hc
      rcases List.mem_append.1 hc with hc | hc
      · exact h.sockets_lt c hc
      · rw [List.mem_singleton.1 hc]
        exact hopens.socket_lt
    · have hplaces := h.places
      rw [hidle, List.nil_append] at hplaces
      simpa [hidle] using hplaces.append_right [conn]
    · simp [h.in_use]
  · exact h
  · -- A connection goes back to the end of the idle vector.
    refine ⟨h.sockets, h.sockets_lt, ?_, ?_⟩
    · refine h.places.trans ?_
      rw [List.append_assoc]
      exact (List.perm_cons_erase hheld).append_left w.pool.connectionsIdle
    · ext c
      rw [Finset.mem_erase, h.mem_in_use, List.mem_toFinset, h.held_nodup.mem_erase_iff]

end World.Sound

theorem sound_invariant (host : Bytes) (port maxConnections : Int) :
    (poolMachine host port maxConnections).Invariant World.Sound := by
  refine ⟨?_, fun w a w' h hstep => h.step hstep⟩
  rintro w rfl
  exact World.Sound.start host port maxConnections

/-! ## Exclusive hand-out -/

/-- The hand-out is exclusive: each connection opened is in one place, the count is right, `acquire`
gives a connection nobody holds and changes nothing when it throws, and `release` is defined. -/
structure World.Exclusive (w : World) : Prop where
  idle_nodup : w.pool.connectionsIdle.Nodup
  disjoint : ∀ conn ∈ w.pool.connectionsIdle, conn ∉ w.pool.connectionsInUse
  placed : ∀ conn, conn ∈ w.opened ↔
    conn ∈ w.pool.connectionsIdle ∨ conn ∈ w.pool.connectionsInUse
  opened_nodup : w.opened.Nodup
  count : w.pool.getConnectionsCount = w.opened.length ∧ w.opened.length ≤ intMax
  acquired : ∀ opened conn p, (∀ c ∈ opened, w.Opens c) →
    w.pool.acquire opened = (some conn, p) → conn ∉ w.held
  thrown : ∀ opened p, w.pool.acquire opened = (none, p) → p = w.pool
  released : ∀ conn ∈ w.held, ∃ p, w.pool.release conn = some p

theorem World.Sound.exclusive {w : World} (h : w.Sound) : w.Exclusive := by
  refine ⟨h.idle_nodup, ?_, ?_, List.Nodup.of_map _ h.sockets, ?_, ?_, ?_, ?_⟩
  · intro conn hidle huse
    exact h.not_held_of_idle hidle (h.mem_in_use.1 huse)
  · intro conn
    rw [h.mem_in_use, h.places.mem_iff, List.mem_append]
  · exact ⟨h.connectionsCount_eq, h.opened_length_le⟩
  · intro opened conn p hopens hacquire
    rcases List.eq_nil_or_concat w.pool.connectionsIdle with hnil | ⟨idle, last, hidle⟩
    · cases opened with
      | none => simp [Pool.acquire, hnil] at hacquire
      | some new =>
          have hconn : new = conn := by
            simpa [Pool.acquire, hnil] using congrArg Prod.fst hacquire
          subst hconn
          -- A new connection differs from every one that is open, and those held are open.
          intro hheld
          have hopened : new ∈ w.opened :=
            h.places.mem_iff.2 (List.mem_append_right _ hheld)
          exact ((hopens new rfl).fresh new hopened).1 rfl
    · rw [List.concat_eq_append] at hidle
      have hconn : last = conn := by
        simpa [Pool.acquire, hidle] using congrArg Prod.fst hacquire
      subst hconn
      exact h.not_held_of_idle (by simp [hidle])
  · intro opened p hacquire
    rcases List.eq_nil_or_concat w.pool.connectionsIdle with hnil | ⟨idle, last, hidle⟩
    · cases opened with
      | none => simpa [Pool.acquire, hnil] using hacquire.symm
      | some new => simp [Pool.acquire, hnil] at hacquire
    · rw [List.concat_eq_append] at hidle
      simp [Pool.acquire, hidle] at hacquire
  · intro conn hheld
    exact ⟨_, h.release_held hheld⟩

theorem pool_exclusive (host : Bytes) (port maxConnections : Int) {tr : List (Action × World)}
    (h : (poolMachine host port maxConnections).Run (World.start host port maxConnections) tr) :
    ∀ w ∈ Machine.states (World.start host port maxConnections) tr, w.Exclusive := by
  intro w hw
  exact ((sound_invariant host port maxConnections).run rfl h w hw).exclusive

section Witness

def firstConnection : ConnectionPtr := { address := 4096, socket := 3 }

def secondConnection : ConnectionPtr := { address := 8192, socket := 4 }

/-- Two connections are opened and handed out. -/
def twoHolders (w : World) : List (Action × World) :=
  [(Action.acquire (some firstConnection), w.acquire (some firstConnection)),
    (Action.acquire (some secondConnection),
      (w.acquire (some firstConnection)).acquire (some secondConnection))]

theorem run_twoHolders (m : Int) :
    (poolMachine [] 6379 m).Run (World.start [] 6379 m) (twoHolders (World.start [] 6379 m)) := by
  refine .cons (.acquire ?_) (.cons (.acquire ?_) (.nil _))
  · intro conn hconn
    cases hconn
    exact ⟨by decide, by simp [World.start]⟩
  · intro conn hconn
    cases hconn
    refine ⟨by decide, ?_⟩
    simp [World.start, World.acquire, Pool.acquire, Pool.make, firstConnection, secondConnection]

/-- The first connection is given back and handed out again, when the second is held; a constructor
throws before all this. -/
def handOuts : List Action :=
  [.acquire none, .acquire (some firstConnection), .acquire (some secondConnection),
    .release firstConnection, .acquire none]

theorem run_handOuts : ∃ tr : List (Action × World),
    (poolMachine [] 6379 32).Run (World.start [] 6379 32) tr ∧ tr.map Prod.fst = handOuts := by
  have hthrows : (World.start [] 6379 32).acquire none = World.start [] 6379 32 :=
    World.Sound.acquire_throws rfl
  have hheld : firstConnection ∈
      (((World.start [] 6379 32).acquire (some firstConnection)).acquire (some secondConnection)).held := by
    decide
  -- the two steps in the middle are those of the run above
  have hrun := run_twoHolders 32
  cases hrun with
  | cons hfirst hrun =>
      cases hrun with
      | cons hsecond hrun =>
          refine ⟨_, .cons (t := World.start [] 6379 32) ?_ (.cons hfirst (.cons hsecond (.cons
            (.release hheld (if_pos ?_)) (.cons (.acquire ?_) (.nil _))))), rfl⟩
          · rw [← hthrows]
            exact .acquire (by simp)
          · decide
          · simp

theorem pool_exclusive_handOuts : ∃ tr : List (Action × World), tr.map Prod.fst = handOuts ∧
    ∀ w ∈ Machine.states (World.start [] 6379 32) tr, w.Exclusive := by
  rcases run_handOuts with ⟨tr, hrun, hactions⟩
  exact ⟨tr, hactions, pool_exclusive [] 6379 32 hrun⟩

end Witness

/-! ## The limits -/

/-- No more connections than the limit, and both limits as the constructor has set them. -/
structure World.Within (m : Int) (w : World) : Prop where
  sound : w.Sound
  maxConnections : w.pool.maxConnections = m
  maxIdle : w.pool.maxIdle = m
  opened_le : (w.opened.length : Int) ≤ m

def World.LimitsHold (w : World) : Prop :=
  w.pool.getConnectionsCount ≤ w.pool.getMaxConnections ∧ w.pool.getIdleCount ≤ w.pool.getMaxIdle

theorem World.Within.limitsHold {m : Int} {w : World} (h : w.Within m) : w.LimitsHold := by
  have hlength := h.sound.opened_length
  have hle := h.opened_le
  rw [World.LimitsHold, h.sound.connectionsCount_eq, h.sound.idleCount_eq, Pool.getMaxConnections,
    Pool.getMaxIdle, h.maxConnections, h.maxIdle]
  exact ⟨hle, by omega⟩

/-- A connection is opened only when all the others are handed out. -/
theorem World.Within.step {m : Int} {w w' : World} {a : Action} (h : w.Within m)
    (hheld : (w'.held.length : Int) ≤ m) (hstep : World.Step w a w') : w'.Within m := by
  have hsound := h.sound.step hstep
  rcases h.sound.step_cases hstep with ⟨idle, conn, hidle, rfl⟩ | ⟨conn, hidle, -, rfl⟩ | rfl |
    ⟨conn, -, rfl⟩
  · exact ⟨hsound, h.maxConnections, h.maxIdle, h.opened_le⟩
  · -- All the open connections are held, so opening one more makes one holder more.
    refine ⟨hsound, h.maxConnections, h.maxIdle, ?_⟩
    have hlength : w.opened.length = w.held.length := by
      rw [h.sound.opened_length, hidle, List.length_nil, Nat.zero_add]
    simp only [List.length_append] at hheld ⊢
    rw [hlength]
    exact hheld
  · exact h
  · exact ⟨hsound, h.maxConnections, h.maxIdle, h.opened_le⟩

theorem World.Within.start {host : Bytes} {port m : Int} (h : 0 ≤ m) :
    (World.start host port m).Within m :=
  ⟨World.Sound.start host port m, rfl, rfl, h⟩

/-- The limits the getters report, which are the constructor's all along. -/
theorem limits_kept {host : Bytes} {port m : Int} :
    (poolMachine host port m).Invariant fun w =>
      w.Sound ∧ w.pool.maxConnections = m ∧ w.pool.maxIdle = m := by
  refine ⟨?_, ?_⟩
  · rintro w rfl
    exact ⟨World.Sound.start host port m, rfl, rfl⟩
  · rintro w a w' ⟨hsound, hmax, hidle⟩ hstep
    refine ⟨hsound.step hstep, ?_⟩
    rcases hsound.step_cases hstep with ⟨_, _, _, rfl⟩ | ⟨_, _, _, rfl⟩ | rfl | ⟨_, _, rfl⟩ <;>
      exact ⟨hmax, hidle⟩

theorem held_le_of_limits {host : Bytes} {port m : Int} {tr : List (Action × World)}
    (h : (poolMachine host port m).Run (World.start host port m) tr)
    (hlimits : ∀ w ∈ Machine.states (World.start host port m) tr, w.LimitsHold) :
    ∀ w ∈ Machine.states (World.start host port m) tr, (w.held.length : Int) ≤ m := by
  intro w hw
  rcases limits_kept.run rfl h w hw with ⟨hsound, hmax, -⟩
  have hcount := (hlimits w hw).1
  have hlength := hsound.opened_length
  rw [hsound.connectionsCount_eq, Pool.getMaxConnections, hmax] at hcount
  -- Every connection held is one of those counted.
  omega

/-- In a run the limits hold in every state exactly when the callers never hold more connections at
once than the constructor's limit. -/
theorem limits_hold_iff (host : Bytes) (port m : Int) {tr : List (Action × World)}
    (h : (poolMachine host port m).Run (World.start host port m) tr) :
    (∀ w ∈ Machine.states (World.start host port m) tr, w.LimitsHold) ↔
      ∀ w ∈ Machine.states (World.start host port m) tr, (w.held.length : Int) ≤ m := by
  constructor
  · exact held_le_of_limits h
  · intro hheld w hw
    have hzero : 0 ≤ m := by
      have hstart := hheld (World.start host port m) List.mem_cons_self
      simpa [World.start] using hstart
    -- `Within` is kept only by steps into states with at most `m` holders, which all of them are.
    have hwithin : w.Within m := by
      refine h.kept_under (I := World.Within m) ?_ (World.Within.start hzero) hheld w hw
      intro u a t hu _ ht hstep
      exact hu.step ht hstep
    exact hwithin.limitsHold

theorem limits_hold_iff_twoHolders :
    (∀ w ∈ Machine.states (World.start [] 6379 2) (twoHolders (World.start [] 6379 2)),
      w.LimitsHold) ↔
      ∀ w ∈ Machine.states (World.start [] 6379 2) (twoHolders (World.start [] 6379 2)),
        (w.held.length : Int) ≤ 2 :=
  limits_hold_iff [] 6379 2 (run_twoHolders 2)

/-- With a limit of one connection two can be held at once. -/
theorem limits_exceeded :
    ∃ tr, (poolMachine [] 6379 1).Run (World.start [] 6379 1) tr ∧
      ¬ ∀ w ∈ Machine.states (World.start [] 6379 1) tr, w.LimitsHold := by
  refine ⟨_, run_twoHolders 1, fun hlimits => ?_⟩
  have hlast := held_le_of_limits (run_twoHolders 1) hlimits _
    (List.mem_cons_of_mem _ (List.mem_cons_of_mem _ List.mem_cons_self))
  exact absurd hlast (by decide)

end Redis
end CppPractice
