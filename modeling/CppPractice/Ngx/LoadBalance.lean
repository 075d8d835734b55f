import CppPractice.Lib.Trace
import CppPractice.Ngx.Buf

/-!
# LoadBalance — choosing a peer at random, and charging failures

`NdgLoadBalanceCallback::get` chooses a peer of the upstream at random a few times and leaves the choice
to nginx's round robin from then on.  `NgxLoadBalance::init` keeps the round robin's `free`, which charges
a failure to the peer at `rrp.current`.

A run is any number of rounds of one request: a `get`, and the `free` of the peer it has handed out.
Before each of the calls other requests may have used the same peers.
-/

namespace CppPractice
namespace Ngx

/-! ## Peers -/

/-- What changes in a peer while it is used. -/
structure PeerState where
  currentWeight : Int
  effectiveWeight : Int
  fails : UInt64
  accessed : Int
  checked : Int
  deriving DecidableEq, Repr

/-- `ngx_http_upstream_rr_peer_t` -/
structure RrPeer where
  sockaddr : Nat
  socklen : Nat
  name : NgxStr
  weight : Int
  maxFails : UInt64
  failTimeout : Int
  down : Bool
  state : PeerState
  deriving DecidableEq, Repr

/-- `ngx_http_upstream_rr_peers_t`; `next` is the group after it, if there is one. -/
structure RrPeers where
  number : Nat
  single : Bool
  name : NgxStr
  peer : Nat → RrPeer

/-- `ngx_http_upstream_rr_peer_data_t`, with the number of the group for `peers` -/
structure RrPeerData where
  peers : Nat
  current : Nat
  tried : Nat → Bool

/-- `ngx_peer_connection_t` -/
structure PeerConnection where
  sockaddr : Nat
  socklen : Nat
  name : NgxStr
  tries : UInt64
  cached : Bool
  connection : Nat
  deriving DecidableEq, Repr

/-- The groups of peers of an upstream, `count` of them, each followed by the next, and what a request
has of its own: `NdgLoadBalanceCallback` and its connection. -/
structure Balance where
  groups : Nat → RrPeers
  count : Nat
  rrp : RrPeerData
  tries : UInt8
  pc : PeerConnection

namespace Balance

def peer (s : Balance) (g i : Nat) : RrPeer := (s.groups g).peer i

def fails (s : Balance) (g i : Nat) : UInt64 := (s.peer g i).state.fails

/-- The states of the peers of group `g` change. -/
def setStates (g : Nat) (f : Nat → PeerState) (s : Balance) : Balance :=
  { s with
    groups := Function.update s.groups g { s.groups g with
      peer := fun i => { s.peer g i with state := f i } } }

/-- `pc->cached = 0; pc->connection = NULL` -/
def disconnect (s : Balance) : Balance :=
  { s with pc := { s.pc with cached := false, connection := 0 } }

def setTries (n : UInt64) (s : Balance) : Balance := { s with pc := { s.pc with tries := n } }

def setRrp (d : RrPeerData) (s : Balance) : Balance := { s with rrp := d }

/-- The connection is for a peer. -/
def connect (p : RrPeer) (s : Balance) : Balance :=
  { s with pc := { s.pc with
      sockaddr := p.sockaddr
      socklen := p.socklen
      name := p.name
      cached := false
      connection := 0 } }

end Balance

/-! ## The round robin of nginx -/

/-- The variables of the loop of `ngx_http_upstream_get_peer`. -/
structure Scan where
  states : Nat → PeerState
  total : Int
  best : Option Nat

/-- One round of the loop, for the peer `p` at `i`. -/
def scanPeer (now : Int) (tried : Nat → Bool) (p : RrPeer) (i : Nat) (t : Scan) : Scan :=
  if tried i then t
  else if p.down then t
  else if p.maxFails ≠ 0 ∧ p.maxFails ≤ (t.states i).fails ∧
      now - (t.states i).checked ≤ p.failTimeout then t
  else
    let x := t.states i
    let y := { x with
      currentWeight := x.currentWeight + x.effectiveWeight
      effectiveWeight :=
        if x.effectiveWeight < p.weight then x.effectiveWeight + 1 else x.effectiveWeight }
    { states := Function.update t.states i y
      total := t.total + x.effectiveWeight
      best :=
        match t.best with
        | none => some i
        | some b => if (t.states b).currentWeight < y.currentWeight then some i else some b }

/-- The loop of `ngx_http_upstream_get_peer`, over the peers of the present group. -/
def scanPeers (now : Int) (s : Balance) : Scan :=
  (List.range (s.groups s.rrp.peers).number).foldl
    (fun t i => scanPeer now s.rrp.tried (s.peer s.rrp.peers i) i t)
    ⟨fun i => (s.peer s.rrp.peers i).state, 0, none⟩

/-- The best peer `p` pays the total weight. -/
def takeBest (now : Int) (p : RrPeer) (total : Int) (x : PeerState) : PeerState :=
  { x with
    currentWeight := x.currentWeight - total
    checked := if now - x.checked > p.failTimeout then now else x.checked }

/-- `ngx_http_upstream_get_peer(rrp)` -/
def ngxHttpUpstreamGetPeer (now : Int) (s : Balance) : Option Nat × Balance :=
  let g := s.rrp.peers
  let t := scanPeers now s
  match t.best with
  | none => (none, s.setStates g t.states)
  | some i =>
      let y := takeBest now (s.peer g i) t.total (t.states i)
      (some i, (s.setStates g (Function.update t.states i y)).setRrp
        { s.rrp with current := i, tried := Function.update s.rrp.tried i true })

/-- All peers of a group are live again. -/
def reviveAll (g : Nat) (s : Balance) : Balance :=
  s.setStates g fun i =>
    if i < (s.groups g).number then { (s.peer g i).state with fails := 0 } else (s.peer g i).state

/-- All peers of the group `g` have failed. -/
def busy (g : Nat) (s : Balance) : Balance :=
  let s := reviveAll g s
  { s with pc := { s.pc with name := (s.groups g).name } }

/-- The request goes on to the next group, with the words of its `tried` cleared. -/
def nextGroup (s : Balance) : Balance :=
  let g := s.rrp.peers + 1
  let words := ((s.groups g).number + 63) / 64
  s.setRrp { s.rrp with
    peers := g
    tried := fun i => if i < 64 * words then false else s.rrp.tried i }

/-- The choice within a group. -/
def groupPeer (now : Int) (s : Balance) : Option Nat × Balance :=
  if (s.groups s.rrp.peers).single then
    (if (s.peer s.rrp.peers 0).down then none else some 0, s)
  else
    ngxHttpUpstreamGetPeer now s

/-- `ngx_http_upstream_get_round_robin_peer(pc, rrp)`, with `rest` groups after the present one: the
peer that is handed out (`NGX_OK`), by its group and its place in it, or none (`NGX_BUSY`). -/
def ngxHttpUpstreamGetRoundRobinPeer (now : Int) : Nat → Balance → Option (Nat × Nat) × Balance
  | rest, s =>
      let g := s.rrp.peers
      let r := groupPeer now s.disconnect
      match r.1 with
      | some i => (some (g, i), r.2.connect (r.2.peer g i))
      | none =>
          match rest with
          | 0 => (none, busy g r.2)
          | rest + 1 =>
              let r := ngxHttpUpstreamGetRoundRobinPeer now rest (nextGroup r.2)
              match r.1 with
              | some p => (some p, r.2)
              | none => (none, busy g r.2)

/-- The peer after its `free`: a failure counts and costs weight, and a passed check makes it live. -/
def freedState (now : Int) (failed : Bool) (p : RrPeer) : PeerState :=
  let x := p.state
  if failed then
    let effectiveWeight :=
      if p.maxFails ≠ 0 then x.effectiveWeight - p.weight.tdiv p.maxFails.toNat
      else x.effectiveWeight
    { x with
      fails := x.fails + 1
      accessed := now
      checked := now
      effectiveWeight := if effectiveWeight < 0 then 0 else effectiveWeight }
  else if x.accessed < x.checked then
    { x with fails := 0 }
  else
    x

/-- `ngx_http_upstream_free_round_robin_peer(pc, rrp, state)`, where `failed` is
`state & NGX_PEER_FAILED` -/
def ngxHttpUpstreamFreeRoundRobinPeer (now : Int) (failed : Bool) (s : Balance) : Balance :=
  let g := s.rrp.peers
  if (s.groups g).single then
    s.setTries 0
  else
    let y := freedState now failed (s.peer g s.rrp.current)
    let t := s.setStates g (Function.update (fun i => (s.peer g i).state) s.rrp.current y)
    if t.pc.tries ≠ 0 then t.setTries (t.pc.tries - 1) else t

/-! ## Setting up -/

/-- `ngx_addr_t` -/
structure NgxAddr where
  sockaddr : Nat
  socklen : Nat
  name : NgxStr
  deriving DecidableEq, Repr

/-- `ngx_http_upstream_server_t` -/
structure UpstreamServer where
  addrs : List NgxAddr
  weight : Int
  maxFails : UInt64
  failTimeout : Int
  down : Bool
  backup : Bool
  deriving DecidableEq, Repr

/-- `ngx_http_upstream_srv_conf_t`; `resolved` is what `ngx_inet_resolve_host` finds for the host. -/
structure UpstreamConf where
  host : NgxStr
  port : Nat
  servers : Option (List UpstreamServer)
  resolved : Option (List NgxAddr)

/-- `ngx_http_upstream_rr_peers_t` of an upstream, with the backup group as its `next` -/
structure Upstream where
  peers : RrPeers
  next : Option RrPeers

/-- The peer for an address of a server. -/
def serverPeer (v : UpstreamServer) (a : NgxAddr) : RrPeer where
  sockaddr := a.sockaddr
  socklen := a.socklen
  name := a.name
  weight := v.weight
  maxFails := v.maxFails
  failTimeout := v.failTimeout
  down := v.down
  state := ⟨0, v.weight, 0, 0, 0⟩

/-- The addresses of the servers that `backup` selects, in their order. -/
def serverPeers (backup : Bool) (servers : List UpstreamServer) : List RrPeer :=
  servers.flatMap fun v => if v.backup = backup then v.addrs.map (serverPeer v) else []

/-- The peer of an upstream that `proxy_pass` defines. -/
def implicitPeer (a : NgxAddr) : RrPeer :=
  serverPeer ⟨[a], 1, 1, 10, false, false⟩ a

/-- The memory after the last peer is zero. -/
def zeroPeer : RrPeer := ⟨0, 0, ⟨0, 0⟩, 0, 0, 0, false, ⟨0, 0, 0, 0, 0⟩⟩

def groupOf (single : Bool) (name : NgxStr) (l : List RrPeer) : RrPeers :=
  ⟨l.length, single, name, fun i => l.getD i zeroPeer⟩

/-- `ngx_http_upstream_init_round_robin(cf, us)`; `none` is `NGX_ERROR`. -/
def ngxHttpUpstreamInitRoundRobin (us : UpstreamConf) : Option Upstream :=
  match us.servers with
  | some servers =>
      let main := serverPeers false servers
      let backup := serverPeers true servers
      if main.length = 0 then none
      else if backup.length = 0 then some ⟨groupOf (main.length = 1) us.host main, none⟩
      else some ⟨groupOf false us.host main, some (groupOf false us.host backup)⟩
  | none =>
      if us.port = 0 then none
      else us.resolved.map fun addrs =>
        ⟨groupOf (addrs.length = 1) us.host (addrs.map implicitPeer), none⟩

/-- `ngx_http_upstream_tries(p)` -/
def ngxHttpUpstreamTries (u : Upstream) : Nat :=
  u.peers.number + match u.next with
    | some backup => backup.number
    | none => 0

/-- `ngx_http_upstream_init_round_robin_peer(r, us)` -/
def ngxHttpUpstreamInitRoundRobinPeer (u : Upstream) (tries : UInt8) (pc : PeerConnection) :
    Balance where
  groups := fun g => if g = 0 then u.peers else u.next.getD u.peers
  count := if u.next.isSome then 2 else 1
  rrp := ⟨0, 0, fun _ => false⟩
  tries := tries
  pc := { pc with tries := UInt64.ofNat (ngxHttpUpstreamTries u) }

/-- `NgxLoadBalance::init(r, us)`, without a `free` of its own: the request keeps the round robin's. -/
def NgxLoadBalance.init (u : Upstream) (pc : PeerConnection) : Balance :=
  ngxHttpUpstreamInitRoundRobinPeer u 0 pc

/-- `NdgLoadBalanceCallback::get(pc, data)` when `rand()` is `random`; the peer that is handed out. -/
def NdgLoadBalanceCallback.get (random : Nat) (now : Int) (s : Balance) :
    Option (Nat × Nat) × Balance :=
  let tries := s.tries
  let s := { s with tries := tries + 1 }
  let g := s.rrp.peers
  if 5 < tries ∨ (s.groups g).single then
    ngxHttpUpstreamGetRoundRobinPeer now (s.count - 1 - g) s
  else
    let i := random % (s.groups g).number
    (some (g, i), s.connect (s.peer g i))

/-! ## Rounds of a request -/

/-- Other requests have used the peers. -/
def Balance.disturb (others : Nat → Nat → PeerState) (s : Balance) : Balance :=
  { s with groups := fun g => { s.groups g with
      peer := fun i => { s.peer g i with state := others g i } } }

/-- A `free`, after others have used the peers. -/
structure Freeing where
  others : Nat → Nat → PeerState
  failed : Bool
  now : Int

/-- A `get`, after others have used the peers, and the `free` that follows if a peer is handed out. -/
structure Round where
  others : Nat → Nat → PeerState
  random : Nat
  now : Int
  freeing : Option Freeing

namespace Round

/-- What `get` returns and leaves. -/
def get (s : Balance) (r : Round) : Option (Nat × Nat) × Balance :=
  NdgLoadBalanceCallback.get r.random r.now (s.disturb r.others)

def step (s : Balance) (r : Round) : Balance :=
  let got := r.get s
  match got.1, r.freeing with
  | some _, some f => ngxHttpUpstreamFreeRoundRobinPeer f.now f.failed (got.2.disturb f.others)
  | _, _ => got.2

end Round

/-! ## What no call changes -/

/-- The configured part of an upstream, as far as the choice of a peer depends on it. -/
structure Shape where
  count : Nat
  number : Nat → Nat
  single : Nat → Bool
  sockaddr : Nat → Nat → Nat

namespace Balance

def shape (s : Balance) : Shape where
  count := s.count
  number := fun g => (s.groups g).number
  single := fun g => (s.groups g).single
  sockaddr := fun g i => (s.peer g i).sockaddr

variable (s : Balance) (g : Nat) (f : Nat → PeerState)

theorem groups_setStates_self : (s.setStates g f).groups g = { s.groups g with
    peer := fun i => { s.peer g i with state := f i } } :=
  Function.update_self ..

theorem groups_setStates_of_ne {h : Nat} (hg : h ≠ g) : (s.setStates g f).groups h = s.groups h :=
  Function.update_of_ne hg ..

theorem peer_setStates (h i : Nat) :
    (s.setStates g f).peer h i =
      if h = g then { s.peer g i with state := f i } else s.peer h i := by
  by_cases hg : h = g
  · rw [if_pos hg, hg, peer, groups_setStates_self]
  · rw [if_neg hg, peer, groups_setStates_of_ne s g f hg, peer]

theorem fails_setStates (h i : Nat) :
    (s.setStates g f).fails h i = if h = g then (f i).fails else s.fails h i := by
  rw [fails, peer_setStates]
  split <;> rfl

@[simp] theorem shape_setStates : (s.setStates g f).shape = s.shape := by
  have hgroup : ∀ h, ((s.setStates g f).groups h).number = (s.groups h).number ∧
      ((s.setStates g f).groups h).single = (s.groups h).single := by
    intro h
    by_cases hg : h = g
    · rw [hg, groups_setStates_self]
      exact ⟨rfl, rfl⟩
    · rw [groups_setStates_of_ne s g f hg]
      exact ⟨rfl, rfl⟩
  have haddr : ∀ h i, ((s.setStates g f).peer h i).sockaddr = (s.peer h i).sockaddr := by
    intro h i
    rw [peer_setStates]
    split
    · next hg => rw [hg]
    · rfl
  simp only [shape, haddr, hgroup]
  rfl

@[simp] theorem shape_setRrp (d : RrPeerData) : (s.setRrp d).shape = s.shape := rfl

@[simp] theorem shape_setTries (n : UInt64) : (s.setTries n).shape = s.shape := rfl

@[simp] theorem fails_setTries (n : UInt64) (h i : Nat) : (s.setTries n).fails h i = s.fails h i := rfl

@[simp] theorem shape_connect (p : RrPeer) : (s.connect p).shape = s.shape := rfl

@[simp] theorem rrp_connect (p : RrPeer) : (s.connect p).rrp = s.rrp := rfl

@[simp] theorem shape_busy : (busy g s).shape = s.shape :=
  shape_setStates s g _

@[simp] theorem rrp_busy : (busy g s).rrp = s.rrp := rfl

@[simp] theorem shape_nextGroup : (nextGroup s).shape = s.shape := rfl

end Balance

/-- The peer `p` is one of the upstream, and the connection is for its address. -/
structure Handed (p : Nat × Nat) (s : Balance) : Prop where
  group : p.1 < s.shape.count
  place : p.2 < s.shape.number p.1
  sockaddr : s.pc.sockaddr = s.shape.sockaddr p.1 p.2

/-- There are several peers in use, and the request is at one of the groups. -/
structure Several (s : Balance) : Prop where
  group : s.rrp.peers < s.shape.count
  number : ∀ g < s.shape.count, 0 < s.shape.number g
  single : ∀ g < s.shape.count, s.shape.single g = false

theorem Several.of_shape {s t : Balance} (hs : Several s) (hshape : t.shape = s.shape)
    (hgroup : t.rrp.peers < s.shape.count) : Several t := by
  constructor
  · rw [hshape]
    exact hgroup
  · rw [hshape]
    exact hs.number
  · rw [hshape]
    exact hs.single

/-! ## The round robin's choice -/

theorem best_scanPeer {now : Int} {tried : Nat → Bool} {p : RrPeer} {i : Nat} {t : Scan} {b : Nat}
    (h : (scanPeer now tried p i t).best = some b) : t.best = some b ∨ b = i := by
  rw [scanPeer] at h
  split_ifs at h
  · exact Or.inl h
  · exact Or.inl h
  · exact Or.inl h
  · cases hbest : t.best with
    | none =>
        rw [hbest] at h
        exact Or.inr (Option.some.inj h).symm
    | some a =>
        rw [hbest] at h
        simp only at h
        split at h
        · exact Or.inr (Option.some.inj h).symm
        · exact Or.inl h

/-- The best peer of a group is one of those that the loop has seen. -/
theorem best_foldl {now : Int} {tried : Nat → Bool} {peer : Nat → RrPeer} {l : List Nat} {t : Scan}
    {b : Nat} (h : (l.foldl (fun t i => scanPeer now tried (peer i) i t) t).best = some b) :
    t.best = some b ∨ b ∈ l := by
  induction l generalizing t with
  | nil => exact Or.inl h
  | cons i l ih =>
      rcases ih h with hstep | hmem
      · rcases best_scanPeer hstep with hbest | hi
        · exact Or.inl hbest
        · exact Or.inr (hi ▸ List.mem_cons_self)
      · exact Or.inr (List.mem_cons_of_mem i hmem)

/-- What a call that is to hand out a peer returns and leaves: the upstream is as before, the request
at one of its groups, and `P` holds of a peer that is handed out. -/
structure GetSpec (s : Balance) (r : Option (Nat × Nat) × Balance)
    (P : Nat × Nat → Balance → Prop) : Prop where
  shape : r.2.shape = s.shape
  group : r.2.rrp.peers < s.shape.count
  handed : ∀ p, r.1 = some p → Handed p r.2 ∧ P p r.2

theorem getPeer_spec (now : Int) (s : Balance) :
    (ngxHttpUpstreamGetPeer now s).2.shape = s.shape ∧
    (ngxHttpUpstreamGetPeer now s).2.rrp.peers = s.rrp.peers ∧
    ∀ i, (ngxHttpUpstreamGetPeer now s).1 = some i →
      i < s.shape.number s.rrp.peers ∧ (ngxHttpUpstreamGetPeer now s).2.rrp.current = i := by
  rw [ngxHttpUpstreamGetPeer]
  cases hbest : (scanPeers now s).best with
  | none =>
      refine ⟨Balance.shape_setStates .., rfl, ?_⟩
      intro i hi
      cases hi
  | some b =>
      refine ⟨(Balance.shape_setRrp ..).trans (Balance.shape_setStates ..), rfl, ?_⟩
      intro i hi
      cases hi
      rcases best_foldl hbest with hnone | hmem
      · cases hnone
      · exact ⟨List.mem_range.1 hmem, rfl⟩

theorem groupPeer_spec (now : Int) {s : Balance} (hs : Several s) :
    (groupPeer now s.disconnect).2.shape = s.shape ∧
    (groupPeer now s.disconnect).2.rrp.peers = s.rrp.peers ∧
    ∀ i, (groupPeer now s.disconnect).1 = some i →
      i < s.shape.number s.rrp.peers ∧ (groupPeer now s.disconnect).2.rrp.current = i := by
  have hsingle : (s.disconnect.groups s.disconnect.rrp.peers).single = false :=
    hs.single _ hs.group
  rw [groupPeer, hsingle, if_neg Bool.false_ne_true]
  exact getPeer_spec now s.disconnect

section roundRobin

variable {now : Int} {rest : Nat} {s : Balance}

theorem getRoundRobinPeer_of_some {i : Nat} (h : (groupPeer now s.disconnect).1 = some i) :
    ngxHttpUpstreamGetRoundRobinPeer now rest s = (some (s.rrp.peers, i),
      (groupPeer now s.disconnect).2.connect ((groupPeer now s.disconnect).2.peer s.rrp.peers i)) := by
  cases rest <;> rw [ngxHttpUpstreamGetRoundRobinPeer, h]

theorem getRoundRobinPeer_zero (h : (groupPeer now s.disconnect).1 = none) :
    ngxHttpUpstreamGetRoundRobinPeer now 0 s =
      (none, busy s.rrp.peers (groupPeer now s.disconnect).2) := by
  rw [ngxHttpUpstreamGetRoundRobinPeer, h]

theorem getRoundRobinPeer_succ (h : (groupPeer now s.disconnect).1 = none) :
    ngxHttpUpstreamGetRoundRobinPeer now (rest + 1) s =
      match ngxHttpUpstreamGetRoundRobinPeer now rest (nextGroup (groupPeer now s.disconnect).2) with
      | (some p, t) => (some p, t)
      | (none, t) => (none, busy s.rrp.peers t) := by
  rw [ngxHttpUpstreamGetRoundRobinPeer, h]
  cases hnext : ngxHttpUpstreamGetRoundRobinPeer now rest
    (nextGroup (groupPeer now s.disconnect).2) with
  | mk out t => cases out <;> rfl

/-- A call that hands out no peer. -/
theorem GetSpec.of_none {t : Balance} {P : Nat × Nat → Balance → Prop} (hshape : t.shape = s.shape)
    (hgroup : t.rrp.peers < s.shape.count) : GetSpec s (none, t) P := by
  refine ⟨hshape, hgroup, ?_⟩
  intro p hp
  cases hp

/-- A call that hands out the peer at `i` of the request's group, and connects for it. -/
theorem GetSpec.of_connect {t : Balance} {i : Nat} {P : Nat × Nat → Balance → Prop}
    (hs : Several s) (hshape : t.shape = s.shape) (hgroup : t.rrp.peers = s.rrp.peers)
    (hplace : i < s.shape.number s.rrp.peers)
    (hP : P (s.rrp.peers, i) (t.connect (t.peer s.rrp.peers i))) :
    GetSpec s (some (s.rrp.peers, i), t.connect (t.peer s.rrp.peers i)) P := by
  refine ⟨hshape, hgroup ▸ hs.group, ?_⟩
  intro p hp
  cases hp
  refine ⟨⟨?_, ?_, rfl⟩, hP⟩
  · rw [Balance.shape_connect, hshape]
    exact hs.group
  · rw [Balance.shape_connect, hshape]
    exact hplace

theorem getRoundRobinPeer_spec_of_some {i : Nat} (hs : Several s)
    (h : (groupPeer now s.disconnect).1 = some i) :
    GetSpec s (ngxHttpUpstreamGetRoundRobinPeer now rest s) fun p t =>
      p = (t.rrp.peers, t.rrp.current) := by
  rcases groupPeer_spec now hs with ⟨hshape, hgroup, hhanded⟩
  rcases hhanded i h with ⟨hplace, hcurrent⟩
  rw [getRoundRobinPeer_of_some h]
  apply GetSpec.of_connect hs hshape hgroup hplace
  rw [Balance.rrp_connect, hgroup, hcurrent]

/-- The round robin hands out the peer at `current`. -/
theorem getRoundRobinPeer_spec (now : Int) (hs : Several s)
    (hrest : s.rrp.peers + rest < s.shape.count) :
    GetSpec s (ngxHttpUpstreamGetRoundRobinPeer now rest s) fun p t =>
      p = (t.rrp.peers, t.rrp.current) := by
  -- `rest` is the number of groups of backups to come; a group without a peer hands on to the next.
  induction rest generalizing s with
  | zero =>
      rcases groupPeer_spec now hs with ⟨hshape, hgroup, -⟩
      cases hout : (groupPeer now s.disconnect).1 with
      | some i => exact getRoundRobinPeer_spec_of_some hs hout
      | none =>
          rw [getRoundRobinPeer_zero hout]
          apply GetSpec.of_none
          · exact (Balance.shape_busy ..).trans hshape
          · rw [Balance.rrp_busy, hgroup]
            exact hs.group
  | succ rest ih =>
      rcases groupPeer_spec now hs with ⟨hshape, hgroup, -⟩
      cases hout : (groupPeer now s.disconnect).1 with
      | some i => exact getRoundRobinPeer_spec_of_some hs hout
      | none =>
          have hnextShape : (nextGroup (groupPeer now s.disconnect).2).shape = s.shape :=
            (Balance.shape_nextGroup _).trans hshape
          have hpeers : (nextGroup (groupPeer now s.disconnect).2).rrp.peers = s.rrp.peers + 1 :=
            congrArg (· + 1) hgroup
          have hnext : GetSpec (nextGroup (groupPeer now s.disconnect).2)
              (ngxHttpUpstreamGetRoundRobinPeer now rest (nextGroup (groupPeer now s.disconnect).2))
              fun p t => p = (t.rrp.peers, t.rrp.current) := by
            apply ih
            · apply hs.of_shape hnextShape
              rw [hpeers]
              omega
            · rw [hpeers, hnextShape]
              omega
          rw [getRoundRobinPeer_succ hout]
          rcases hr : ngxHttpUpstreamGetRoundRobinPeer now rest
            (nextGroup (groupPeer now s.disconnect).2) with ⟨_ | p, t⟩
          · rw [hr] at hnext
            apply GetSpec.of_none
            · exact (Balance.shape_busy ..).trans (hnext.shape.trans hnextShape)
            · rw [Balance.rrp_busy, ← hnextShape]
              exact hnext.group
          · rw [hr] at hnext
            exact ⟨hnext.shape.trans hnextShape, hnextShape ▸ hnext.group, hnext.handed⟩

end roundRobin

/-! ## Who is charged -/

/-- A failure reported by `free` is charged to the peer whose address `get` has stored, and to no
other. -/
def ChargedRight (s : Balance) (r : Round) : Prop :=
  ∀ p f, (r.get s).1 = some p → r.freeing = some f → f.failed = true →
    Handed p ((r.get s).2.disturb f.others) ∧
    ∀ g i, (r.step s).fails g i =
      ((r.get s).2.disturb f.others).fails g i + if (g, i) = p then 1 else 0

/-- If a failure is to be reported, the round robin chooses, or the peer at `current` is drawn. -/
def DrawsCurrent (s : Balance) (r : Round) : Prop :=
  ∀ f, r.freeing = some f → f.failed = true → s.tries ≤ 5 →
    r.random % (s.groups s.rrp.peers).number = s.rrp.current

section free

variable (now : Int) (failed : Bool) {s : Balance}

/-- A `free` changes the state of the peer at `current`, and no other; `tries` apart, that is all. -/
theorem free_eq (hs : Several s) : ∃ n, ngxHttpUpstreamFreeRoundRobinPeer now failed s =
    (s.setStates s.rrp.peers (Function.update (fun i => (s.peer s.rrp.peers i).state) s.rrp.current
      (freedState now failed (s.peer s.rrp.peers s.rrp.current)))).setTries n := by
  have hsingle : (s.groups s.rrp.peers).single = false := hs.single _ hs.group
  simp only [ngxHttpUpstreamFreeRoundRobinPeer, hsingle, Bool.false_eq_true, if_false]
  split
  · exact ⟨_, rfl⟩
  · exact ⟨_, rfl⟩

theorem shape_free (hs : Several s) :
    (ngxHttpUpstreamFreeRoundRobinPeer now failed s).shape = s.shape ∧
    (ngxHttpUpstreamFreeRoundRobinPeer now failed s).rrp = s.rrp := by
  rcases free_eq now failed hs with ⟨n, hfree⟩
  rw [hfree, Balance.shape_setTries, Balance.shape_setStates]
  exact ⟨rfl, rfl⟩

/-- The failure is charged to the peer at `current`. -/
theorem fails_free (hs : Several s) (g i : Nat) :
    (ngxHttpUpstreamFreeRoundRobinPeer now true s).fails g i =
      s.fails g i + if (g, i) = (s.rrp.peers, s.rrp.current) then 1 else 0 := by
  rcases free_eq now true hs with ⟨n, hfree⟩
  rw [hfree, Balance.fails_setTries, Balance.fails_setStates, Function.update_apply]
  by_cases hg : g = s.rrp.peers
  · by_cases hi : i = s.rrp.current
    · rw [if_pos hg, if_pos hi, if_pos (by rw [hg, hi]), hg, hi]
      rfl
    · rw [if_pos hg, if_neg hi, if_neg (fun h => hi (congrArg Prod.snd h)), hg]
      exact (UInt64.add_zero _).symm
  · rw [if_neg hg, if_neg (fun h => hg (congrArg Prod.fst h))]
    exact (UInt64.add_zero _).symm

end free

section get

variable {s : Balance} {r : Round}

theorem get_eq_roundRobin (htries : 5 < s.tries) :
    r.get s = ngxHttpUpstreamGetRoundRobinPeer r.now (s.count - 1 - s.rrp.peers)
      { s.disturb r.others with tries := s.tries + 1 } :=
  if_pos (Or.inl htries)

/-- After a few tries the round robin chooses. -/
theorem get_of_lt (hs : Several s) (htries : 5 < s.tries) :
    GetSpec s (r.get s) fun p t => p = (t.rrp.peers, t.rrp.current) := by
  have hseveral : Several { s.disturb r.others with tries := s.tries + 1 } :=
    hs.of_shape rfl hs.group
  have hrest : s.rrp.peers + (s.count - 1 - s.rrp.peers) < s.shape.count := by
    have hgroup : s.rrp.peers < s.count := hs.group
    change _ < s.count
    omega
  have hspec := getRoundRobinPeer_spec r.now hseveral hrest
  rw [get_eq_roundRobin htries]
  exact ⟨hspec.shape, hspec.group, hspec.handed⟩

/-- Before that a peer is drawn, and `rrp` does not learn of it. -/
theorem get_of_le (hs : Several s) (htries : s.tries ≤ 5) :
    (r.get s).1 = some (s.rrp.peers, r.random % (s.groups s.rrp.peers).number) ∧
    GetSpec s (r.get s) fun _ t => t.rrp = s.rrp := by
  have hsingle : (s.groups s.rrp.peers).single = false := hs.single _ hs.group
  have hdraw : ¬(5 < s.tries ∨ (s.groups s.rrp.peers).single) := by
    rw [hsingle]
    rintro (hlt | hfalse)
    · exact absurd htries (UInt8.not_le.2 hlt)
    · cases hfalse
  have hget : r.get s = (some (s.rrp.peers, r.random % (s.groups s.rrp.peers).number),
      Balance.connect ((s.disturb r.others).peer s.rrp.peers
        (r.random % (s.groups s.rrp.peers).number))
        { s.disturb r.others with tries := s.tries + 1 }) :=
    if_neg hdraw
  rw [hget]
  refine ⟨rfl, ?_⟩
  apply GetSpec.of_connect (t := { s.disturb r.others with tries := s.tries + 1 }) hs rfl rfl
  · exact Nat.mod_lt _ (hs.number _ hs.group)
  · rfl

theorem get_spec (hs : Several s) : GetSpec s (r.get s) fun _ _ => True := by
  by_cases htries : 5 < s.tries
  · rcases get_of_lt (r := r) hs htries with ⟨hshape, hgroup, hhanded⟩
    exact ⟨hshape, hgroup, fun p hp => ⟨(hhanded p hp).1, trivial⟩⟩
  · rcases (get_of_le (r := r) hs (UInt8.not_lt.1 htries)).2 with ⟨hshape, hgroup, hhanded⟩
    exact ⟨hshape, hgroup, fun p hp => ⟨(hhanded p hp).1, trivial⟩⟩

theorem several_get (hs : Several s) : Several (r.get s).2 :=
  hs.of_shape (get_spec hs).shape (get_spec hs).group

theorem several_freeing (hs : Several s) (f : Freeing) :
    Several ((r.get s).2.disturb f.others) :=
  (several_get hs).of_shape rfl (several_get hs).group

theorem step_of_none (h : (r.get s).1 = none ∨ r.freeing = none) : r.step s = (r.get s).2 := by
  rw [Round.step]
  rcases h with hout | hfree
  · rw [hout]
  · rw [hfree]
    cases (r.get s).1 <;> rfl

theorem step_of_free {p : Nat × Nat} {f : Freeing} (hout : (r.get s).1 = some p)
    (hfree : r.freeing = some f) :
    r.step s = ngxHttpUpstreamFreeRoundRobinPeer f.now f.failed ((r.get s).2.disturb f.others) := by
  rw [Round.step, hout, hfree]

/-- There are several peers in use after every round. -/
theorem several_step (hs : Several s) : Several (r.step s) := by
  cases hout : (r.get s).1 with
  | none =>
      rw [step_of_none (Or.inl hout)]
      exact several_get hs
  | some p =>
      cases hfree : r.freeing with
      | none =>
          rw [step_of_none (Or.inr hfree)]
          exact several_get hs
      | some f =>
          have hfreeing : Several ((r.get s).2.disturb f.others) := several_freeing hs f
          rcases shape_free f.now f.failed hfreeing with ⟨hshape, hrrp⟩
          rw [step_of_free hout hfree]
          apply hfreeing.of_shape hshape
          rw [hrrp]
          exact hfreeing.group

/-- What a failure charges, after a `get` that has handed out a peer. -/
theorem fails_step {p : Nat × Nat} {f : Freeing} (hs : Several s) (hout : (r.get s).1 = some p)
    (hfree : r.freeing = some f) (hfailed : f.failed = true) (g i : Nat) :
    (r.step s).fails g i = ((r.get s).2.disturb f.others).fails g i +
      if (g, i) = ((r.get s).2.rrp.peers, (r.get s).2.rrp.current) then 1 else 0 := by
  rw [step_of_free hout hfree, hfailed]
  exact fails_free f.now (several_freeing hs f) g i

/-- Two charges of the counters `x` are the same only if they are for one peer. -/
theorem charge_injective {x : Nat → Nat → UInt64} {p q : Nat × Nat}
    (h : ∀ g i, (x g i + if (g, i) = p then 1 else 0) = x g i + if (g, i) = q then 1 else 0) :
    p = q := by
  by_contra hne
  have hcharge := h p.1 p.2
  rw [if_pos rfl, if_neg hne] at hcharge
  have hzero : (1 : UInt64) = 0 := (UInt64.add_right_inj _).1 hcharge
  cases hzero

/-- A failure is charged to the right peer exactly when `current` is its place. -/
theorem chargedRight_iff (hs : Several s) : ChargedRight s r ↔ DrawsCurrent s r := by
  constructor
  · intro hcharged f hfree hfailed htries
    rcases get_of_le (r := r) hs htries with ⟨hout, hspec⟩
    rcases hcharged _ f hout hfree hfailed with ⟨-, hcharge⟩
    have hrrp : (r.get s).2.rrp = s.rrp := (hspec.handed _ hout).2
    have hpeer : ((r.get s).2.rrp.peers, (r.get s).2.rrp.current) =
        (s.rrp.peers, r.random % (s.groups s.rrp.peers).number) := by
      apply charge_injective
      intro g i
      rw [← fails_step hs hout hfree hfailed]
      exact hcharge g i
    rw [hrrp] at hpeer
    exact (congrArg Prod.snd hpeer).symm
  · intro hdraws p f hout hfree hfailed
    have hhanded : Handed p (r.get s).2 := ((get_spec hs).handed p hout).1
    have hpeer : p = ((r.get s).2.rrp.peers, (r.get s).2.rrp.current) := by
      by_cases htries : 5 < s.tries
      · exact ((get_of_lt hs htries).handed p hout).2
      · rcases get_of_le (r := r) hs (UInt8.not_lt.1 htries) with ⟨hdraw, hspec⟩
        have hrrp : (r.get s).2.rrp = s.rrp := (hspec.handed _ hdraw).2
        rw [hrrp, ← hdraws f hfree hfailed (UInt8.not_lt.1 htries)]
        exact Option.some.inj (hout.symm.trans hdraw)
    refine ⟨⟨hhanded.group, hhanded.place, hhanded.sockaddr⟩, ?_⟩
    intro g i
    rw [hpeer]
    exact fails_step hs hout hfree hfailed g i

end get

/-! ## Every run of a request -/

/-- No group of an upstream with several peers is empty or marked `single`. -/
theorem groups_init {us : UpstreamConf} {u : Upstream}
    (hinit : ngxHttpUpstreamInitRoundRobin us = some u) (hseveral : 2 ≤ ngxHttpUpstreamTries u) :
    (0 < u.peers.number ∧ u.peers.single = false) ∧
    ∀ b, u.next = some b → 0 < b.number ∧ b.single = false := by
  rw [ngxHttpUpstreamInitRoundRobin] at hinit
  cases hservers : us.servers with
  | some servers =>
      rw [hservers] at hinit
      dsimp only at hinit
      split_ifs at hinit with hmain hbackup
      · cases hinit
        have hlen : 2 ≤ (serverPeers false servers).length := hseveral
        refine ⟨⟨Nat.pos_of_ne_zero hmain, ?_⟩, ?_⟩
        · exact decide_eq_false (by omega)
        · intro b hb
          cases hb
      · cases hinit
        refine ⟨⟨Nat.pos_of_ne_zero hmain, rfl⟩, ?_⟩
        intro b hb
        cases hb
        exact ⟨Nat.pos_of_ne_zero hbackup, rfl⟩
  | none =>
      rw [hservers] at hinit
      dsimp only at hinit
      split_ifs at hinit with hport
      rcases Option.map_eq_some_iff.1 hinit with ⟨addrs, -, rfl⟩
      have hlen : 2 ≤ (addrs.map implicitPeer).length := hseveral
      rw [List.length_map] at hlen
      refine ⟨⟨?_, ?_⟩, ?_⟩
      · exact Nat.lt_of_lt_of_le Nat.two_pos hseveral
      · exact decide_eq_false (by omega)
      · intro b hb
        cases hb

/-- There are several peers in use when a request starts. -/
theorem several_init {us : UpstreamConf} {u : Upstream}
    (hinit : ngxHttpUpstreamInitRoundRobin us = some u) (hseveral : 2 ≤ ngxHttpUpstreamTries u) (pc : PeerConnection) :
    Several (NgxLoadBalance.init u pc) := by
  rcases groups_init hinit hseveral with ⟨hmain, hbackup⟩
  rcases u with ⟨peers, _ | backup⟩
  · refine ⟨Nat.one_pos, ?_, ?_⟩
    · intro g hg
      cases Nat.lt_one_iff.1 hg
      exact hmain.1
    · intro g hg
      cases Nat.lt_one_iff.1 hg
      exact hmain.2
  · have hgroups : ∀ g, 0 < (NgxLoadBalance.init ⟨peers, some backup⟩ pc).shape.number g ∧
        (NgxLoadBalance.init ⟨peers, some backup⟩ pc).shape.single g = false := by
      intro g
      cases g with
      | zero => exact hmain
      | succ g => exact hbackup backup rfl
    exact ⟨Nat.two_pos, fun g _ => (hgroups g).1, fun g _ => (hgroups g).2⟩

/-- In a run of a request of an upstream with several peers, every failure is charged to the peer that
`get` has handed out if, and only if, no peer but the one at `current` is drawn before a failure. -/
theorem failures_charged_iff {us : UpstreamConf} {u : Upstream}
    (hinit : ngxHttpUpstreamInitRoundRobin us = some u) (hseveral : 2 ≤ ngxHttpUpstreamTries u)
    (pc : PeerConnection) (rounds : List Round) :
    Trace.Along (fun s r => r.step s) ChargedRight (NgxLoadBalance.init u pc) rounds ↔
      Trace.Along (fun s r => r.step s) DrawsCurrent (NgxLoadBalance.init u pc) rounds := by
  apply Trace.along_iff_along (J := Several)
  · exact fun s r hs _ => several_step hs
  · exact fun s r hs => chargedRight_iff hs
  · exact several_init hinit hseveral pc

/-! ## A failure charged to another peer -/

/-- The servers of the addresses 10 and 20. -/
def twoServers : UpstreamConf where
  host := ⟨0, 0⟩
  port := 80
  servers := some [⟨[⟨10, 16, ⟨0, 0⟩⟩], 1, 1, 10, false, false⟩,
    ⟨[⟨20, 16, ⟨0, 0⟩⟩], 1, 1, 10, false, false⟩]
  resolved := none

def twoPeers : Upstream where
  peers := groupOf false ⟨0, 0⟩ (serverPeers false (twoServers.servers.getD []))
  next := none

/-- A round of a request that has the peers to itself, whose peer fails. -/
def failingRound (random : Nat) : Round :=
  ⟨fun _ _ => ⟨0, 1, 0, 0, 0⟩, random, 0, some ⟨fun _ _ => ⟨0, 1, 0, 0, 0⟩, true, 0⟩⟩

theorem failures_charged_even : Trace.Along (fun s r => r.step s) ChargedRight
    (NgxLoadBalance.init twoPeers ⟨0, 0, ⟨0, 0⟩, 0, false, 0⟩) [failingRound 4, failingRound 2] := by
  have hinit : ngxHttpUpstreamInitRoundRobin twoServers = some twoPeers := by rfl
  apply (failures_charged_iff hinit (by decide) _ _).2
  rw [Trace.along_cons, Trace.along_cons]
  refine ⟨?_, ?_, Trace.along_nil _⟩
  · intro f hf hfailed htries
    rfl
  · intro f hf hfailed htries
    rfl

/-- The peer at 1 is drawn and fails, and the peer at 0 is charged. -/
theorem failure_charged_wrong : ¬Trace.Along (fun s r => r.step s) ChargedRight
    (NgxLoadBalance.init twoPeers ⟨0, 0, ⟨0, 0⟩, 0, false, 0⟩) [failingRound 1] := by
  rw [Trace.along_cons]
  rintro ⟨hcharged, -⟩
  rcases hcharged (0, 1) ⟨fun _ _ => ⟨0, 1, 0, 0, 0⟩, true, 0⟩ rfl rfl rfl with ⟨-, hcharge⟩
  exact absurd (hcharge 0 0) (by decide)

end Ngx
end CppPractice
