import CppPractice.Lib.Rotation
import CppPractice.Ngx.PeerChoice

/-!
# Fairness — the round robin over many requests

The peers of an upstream are shared by all its requests.  A request has data of its own, and its calls come
between those of the others in any order; so what happens to the peers is a list of calls, each with the data
that its request has by then.

Whatever the requests do, the credits of a group sum to zero and an effective weight lies between zero and
the weight.  As long as no peer fails, and each request takes the first peer that it is given, every peer
gets its share.
-/

namespace CppPractice
namespace Ngx

open Finset

/-! ## Calls of many requests -/

/-- The peers of the upstream, with a request at them. -/
def Upstream.serve (u : Upstream) (d : RrPeerData) (pc : PeerConnection) : Balance :=
  (ngxHttpUpstreamInitRoundRobinPeer u 0 pc).setRrp d

/-- The peers as a call has left them. -/
def Upstream.keep (u : Upstream) (s : Balance) : Upstream :=
  ⟨s.groups 0, u.next.map fun _ => s.groups 1⟩

/-- A `get` or a `free` of one of the requests. -/
inductive Traffic
  | get (now : Int) (d : RrPeerData) (pc : PeerConnection)
  | free (now : Int) (failed : Bool) (d : RrPeerData) (pc : PeerConnection)

/-- An upstream with what the `get`s so far have returned. -/
structure Service where
  upstream : Upstream
  handed : List (Option (Nat × Nat))

def Service.step (v : Service) : Traffic → Service
  | .get now d pc =>
      let s := v.upstream.serve d pc
      let r := ngxHttpUpstreamGetRoundRobinPeer now (s.count - 1 - d.peers) s
      ⟨v.upstream.keep r.2, v.handed ++ [r.1]⟩
  | .free now failed d pc =>
      ⟨v.upstream.keep (ngxHttpUpstreamFreeRoundRobinPeer now failed (v.upstream.serve d pc)), v.handed⟩

def Service.start (u : Upstream) : Service := ⟨u, []⟩

/-! ## One call -/

instance decidableOpen (now : Int) (tried : Nat → Bool) (peer : Nat → RrPeer) (i : Nat) :
    Decidable (Open now tried peer i) :=
  inferInstanceAs (Decidable (_ ∧ _))

/-- What the loop leaves of a peer that is open. -/
def advanced (p : RrPeer) : PeerState :=
  { p.state with
    currentWeight := p.state.currentWeight + p.state.effectiveWeight
    effectiveWeight :=
      if p.state.effectiveWeight < p.weight then p.state.effectiveWeight + 1
      else p.state.effectiveWeight }

/-- What the loop leaves of the peer at `i`. -/
def scanned (now : Int) (tried : Nat → Bool) (peer : Nat → RrPeer) (i : Nat) : PeerState :=
  if Open now tried peer i then advanced (peer i) else (peer i).state

section scan

variable {now : Int} {tried : Nat → Bool} {peer : Nat → RrPeer} {n : Nat} {t : Scan}

variable (now tried) in
theorem scanPeer_states (hstate : t.states n = (peer n).state) :
    (scanPeer now tried (peer n) n t).states =
      Function.update t.states n (scanned now tried peer n) ∧
    (scanPeer now tried (peer n) n t).total =
      t.total + if Open now tried peer n then (peer n).state.effectiveWeight else 0 := by
  by_cases hopen : Open now tried peer n
  · have hpass := hopen
    rcases hpass with ⟨htried, hdown, hfails⟩
    rw [scanned, if_pos hopen, if_pos hopen, scanPeer, hstate,
      if_neg (by rw [htried]; exact Bool.false_ne_true), if_neg (by rw [hdown]; exact Bool.false_ne_true),
      if_neg hfails]
    exact ⟨rfl, rfl⟩
  · rw [scanPeer_closed hstate hopen, scanned, if_neg hopen, if_neg hopen, add_zero, ← hstate,
      Function.update_eq_self]
    exact ⟨rfl, rfl⟩

/-- The whole loop. -/
theorem scan_range (now : Int) (tried : Nat → Bool) (peer : Nat → RrPeer) (n : Nat) :
    let t := (List.range n).foldl (fun t i => scanPeer now tried (peer i) i t)
      ⟨fun i => (peer i).state, 0, none⟩
    (∀ i, t.states i = if i < n then scanned now tried peer i else (peer i).state) ∧
      t.total = ∑ i ∈ range n, if Open now tried peer i then (peer i).state.effectiveWeight else 0 := by
  induction n with
  | zero => exact ⟨fun i => rfl, rfl⟩
  | succ n ih =>
      rcases ih with ⟨hstates, htotal⟩
      rw [List.range_succ, List.foldl_append]
      have hn := hstates n
      rw [if_neg (lt_irrefl n)] at hn
      rcases scanPeer_states now tried hn with ⟨hnext, hsum⟩
      refine ⟨fun i => ?_, ?_⟩
      · rw [List.foldl_cons, List.foldl_nil, hnext]
        rcases lt_trichotomy i n with hlt | rfl | hgt
        · rw [Function.update_of_ne hlt.ne, hstates, if_pos hlt, if_pos (hlt.trans n.lt_succ_self)]
        · rw [Function.update_self, if_pos i.lt_succ_self]
        · rw [Function.update_of_ne hgt.ne', hstates, if_neg hgt.not_gt, if_neg (by omega)]
      · rw [List.foldl_cons, List.foldl_nil, hsum, htotal, sum_range_succ]

end scan

/-! ## What every run keeps -/

/-- The weights of a group: what has been earned has been paid. -/
structure RrPeers.Sound (g : RrPeers) : Prop where
  effective : ∀ i < g.number, 0 ≤ (g.peer i).state.effectiveWeight ∧
    (g.peer i).state.effectiveWeight ≤ (g.peer i).weight
  current : ∑ i ∈ range g.number, (g.peer i).state.currentWeight = 0

def Balance.Sound (s : Balance) : Prop := ∀ g, (s.groups g).Sound

def Upstream.Sound (u : Upstream) : Prop := u.peers.Sound ∧ ∀ g, u.next = some g → g.Sound

section sound

variable {s : Balance} {now : Int}

theorem Balance.Sound.setStates (hs : s.Sound) {g : Nat} {f : Nat → PeerState}
    (heffective : ∀ i < (s.groups g).number, 0 ≤ (f i).effectiveWeight ∧
      (f i).effectiveWeight ≤ (s.peer g i).weight)
    (hcurrent : ∑ i ∈ range (s.groups g).number, (f i).currentWeight = 0) :
    (s.setStates g f).Sound := by
  intro h
  by_cases hg : h = g
  · rw [hg, groups_setStates_self]
    exact ⟨heffective, hcurrent⟩
  · rw [groups_setStates_of_ne s g f hg]
    exact hs h

/-- A change that touches no weight. -/
theorem Balance.Sound.setStates_same (hs : s.Sound) {g : Nat} {f : Nat → PeerState}
    (heffective : ∀ i < (s.groups g).number, (f i).effectiveWeight = (s.peer g i).state.effectiveWeight)
    (hcurrent : ∀ i < (s.groups g).number, (f i).currentWeight = (s.peer g i).state.currentWeight) :
    (s.setStates g f).Sound := by
  refine hs.setStates (fun i hi => ?_) ?_
  · rw [heffective i hi]
    exact (hs g).effective i hi
  · rw [← (hs g).current]
    exact sum_congr rfl fun i hi => hcurrent i (mem_range.1 hi)

theorem scanned_effective (now : Int) (tried : Nat → Bool) {peer : Nat → RrPeer} {i : Nat}
    (h : 0 ≤ (peer i).state.effectiveWeight ∧ (peer i).state.effectiveWeight ≤ (peer i).weight) :
    0 ≤ (scanned now tried peer i).effectiveWeight ∧
      (scanned now tried peer i).effectiveWeight ≤ (peer i).weight := by
  rw [scanned]
  split
  · rw [advanced]
    dsimp only
    split
    · omega
    · exact h
  · exact h

theorem scanned_current (tried : Nat → Bool) (peer : Nat → RrPeer) (i : Nat) :
    (scanned now tried peer i).currentWeight = (peer i).state.currentWeight +
      if Open now tried peer i then (peer i).state.effectiveWeight else 0 := by
  rw [scanned]
  split
  · rfl
  · exact (add_zero _).symm

/-- The best peer pays what all of them have earned. -/
theorem Balance.Sound.getPeer (hs : s.Sound) : (ngxHttpUpstreamGetPeer now s).2.Sound := by
  have hscan := scan_range now s.rrp.tried (s.peer s.rrp.peers) (s.groups s.rrp.peers).number
  have hbest := scanned_range now s.rrp.tried (s.peer s.rrp.peers) (s.groups s.rrp.peers).number
  rw [ngxHttpUpstreamGetPeer]
  change Scanned now _ _ _ (scanPeers now s) at hbest
  change (∀ i, (scanPeers now s).states i = _) ∧ (scanPeers now s).total = _ at hscan
  rcases hscan with ⟨hstates, htotal⟩
  have hstates : ∀ i < (s.groups s.rrp.peers).number,
      (scanPeers now s).states i = scanned now s.rrp.tried (s.peer s.rrp.peers) i := by
    intro i hi
    rw [hstates, if_pos hi]
  cases hb : (scanPeers now s).best with
  | none =>
      have hclosed : ∀ i < (s.groups s.rrp.peers).number,
          (scanPeers now s).states i = (s.peer s.rrp.peers i).state := by
        intro i hi
        rw [hstates i hi, scanned, if_neg (hbest.empty hb i hi)]
      refine hs.setStates_same (fun i hi => ?_) fun i hi => ?_
      · rw [hclosed i hi]
      · rw [hclosed i hi]
  | some b =>
      have hlt : b < (s.groups s.rrp.peers).number := (hbest.best b hb).1.lt
      refine hs.setStates (fun i hi => ?_) ?_
      · have hweights := scanned_effective now s.rrp.tried
          ((hs s.rrp.peers).effective i hi)
        by_cases hib : i = b
        · rw [hib, Function.update_self, takeBest, hstates b hlt]
          rw [hib] at hweights
          exact hweights
        · rw [Function.update_of_ne hib, hstates i hi]
          exact hweights
      · have hall : ∑ i ∈ range (s.groups s.rrp.peers).number,
            (scanned now s.rrp.tried (s.peer s.rrp.peers) i).currentWeight =
              (scanPeers now s).total := by
          have hzero : ∑ i ∈ range (s.groups s.rrp.peers).number,
              (s.peer s.rrp.peers i).state.currentWeight = 0 := (hs s.rrp.peers).current
          simp only [scanned_current, sum_add_distrib, htotal]
          rw [hzero, zero_add]
        have hpaid : ∀ i ∈ range (s.groups s.rrp.peers).number,
            (Function.update (scanPeers now s).states b (takeBest now (s.peer s.rrp.peers b)
              (scanPeers now s).total ((scanPeers now s).states b)) i).currentWeight =
            (scanned now s.rrp.tried (s.peer s.rrp.peers) i).currentWeight -
              if i = b then (scanPeers now s).total else 0 := by
          intro i hi
          by_cases hib : i = b
          · rw [hib, Function.update_self, if_pos rfl, takeBest, hstates b hlt]
          · rw [Function.update_of_ne hib, if_neg hib, hstates i (mem_range.1 hi), sub_zero]
        rw [sum_congr rfl hpaid, sum_sub_distrib, hall, sum_ite_eq' _ b, if_pos (mem_range.2 hlt),
          sub_self]

theorem Balance.Sound.groupPeer (hs : s.Sound) : (groupPeer now s.disconnect).2.Sound := by
  rw [Ngx.groupPeer]
  split
  · exact hs
  · exact Balance.Sound.getPeer (s := s.disconnect) hs

theorem Balance.Sound.busy (hs : s.Sound) (g : Nat) : (busy g s).Sound := by
  refine hs.setStates_same (g := g) (fun i hi => ?_) fun i hi => ?_
  · rw [if_pos hi]
  · rw [if_pos hi]

theorem Balance.Sound.getRoundRobinPeer {rest : Nat} (hs : s.Sound) :
    (ngxHttpUpstreamGetRoundRobinPeer now rest s).2.Sound := by
  induction rest generalizing s with
  | zero =>
      cases hout : (Ngx.groupPeer now s.disconnect).1 with
      | some i =>
          rw [getRoundRobinPeer_of_some hout]
          exact hs.groupPeer
      | none =>
          rw [getRoundRobinPeer_zero hout]
          exact hs.groupPeer.busy _
  | succ rest ih =>
      cases hout : (Ngx.groupPeer now s.disconnect).1 with
      | some i =>
          rw [getRoundRobinPeer_of_some hout]
          exact hs.groupPeer
      | none =>
          have hnext := ih (s := nextGroup (Ngx.groupPeer now s.disconnect).2) hs.groupPeer
          rw [getRoundRobinPeer_succ hout]
          rcases hr : ngxHttpUpstreamGetRoundRobinPeer now rest
            (nextGroup (Ngx.groupPeer now s.disconnect).2) with ⟨_ | p, t⟩
          · rw [hr] at hnext
            exact hnext.busy _
          · rw [hr] at hnext
            exact hnext

theorem freedState_effective {failed : Bool} {p : RrPeer}
    (h : 0 ≤ p.state.effectiveWeight ∧ p.state.effectiveWeight ≤ p.weight) :
    0 ≤ (freedState now failed p).effectiveWeight ∧
      (freedState now failed p).effectiveWeight ≤ p.weight := by
  have hcost : 0 ≤ p.weight.tdiv p.maxFails.toNat :=
    Int.tdiv_nonneg (h.1.trans h.2) (Int.natCast_nonneg _)
  rw [freedState]
  dsimp only
  split_ifs <;> (try dsimp only) <;> omega

theorem freedState_current (failed : Bool) (p : RrPeer) :
    (freedState now failed p).currentWeight = p.state.currentWeight := by
  rw [freedState]
  dsimp only
  split_ifs <;> rfl

theorem Balance.Sound.free {failed : Bool} (hs : s.Sound) :
    (ngxHttpUpstreamFreeRoundRobinPeer now failed s).Sound := by
  have hset : (s.setStates s.rrp.peers (Function.update (fun i => (s.peer s.rrp.peers i).state)
      s.rrp.current (freedState now failed (s.peer s.rrp.peers s.rrp.current)))).Sound := by
    refine hs.setStates (fun i hi => ?_) ?_
    · by_cases hcurrent : i = s.rrp.current
      · rw [← hcurrent, Function.update_self]
        exact freedState_effective ((hs s.rrp.peers).effective i hi)
      · rw [Function.update_of_ne hcurrent]
        exact (hs s.rrp.peers).effective i hi
    · rw [← (hs s.rrp.peers).current]
      refine sum_congr rfl fun i _ => ?_
      by_cases hcurrent : i = s.rrp.current
      · rw [← hcurrent, Function.update_self]
        exact freedState_current ..
      · rw [Function.update_of_ne hcurrent]
        rfl
  rw [ngxHttpUpstreamFreeRoundRobinPeer]
  split
  · exact hs
  · dsimp only
    split
    · exact hset
    · exact hset

end sound

theorem Upstream.Sound.serve {u : Upstream} (hu : u.Sound) (d : RrPeerData) (pc : PeerConnection) :
    (u.serve d pc).Sound := by
  intro g
  change ((if g = 0 then u.peers else u.next.getD u.peers) : RrPeers).Sound
  split
  · exact hu.1
  · cases hnext : u.next with
    | none => exact hu.1
    | some b => exact hu.2 b hnext

theorem Balance.Sound.keep {s : Balance} (hs : s.Sound) (u : Upstream) : (u.keep s).Sound := by
  refine ⟨hs 0, ?_⟩
  intro g hg
  rcases Option.map_eq_some_iff.1 hg with ⟨_, _, rfl⟩
  exact hs 1

theorem Upstream.Sound.step {v : Service} (hv : v.upstream.Sound) (e : Traffic) :
    (v.step e).upstream.Sound := by
  cases e with
  | get now d pc => exact (hv.serve d pc).getRoundRobinPeer.keep _
  | free now failed d pc => exact (hv.serve d pc).free.keep _

/-! ### Where it starts -/

/-- A group that no request has used. -/
structure RrPeers.Fresh (g : RrPeers) : Prop where
  single : g.single = true → g.number = 1
  weight : ∀ i < g.number, 0 < (g.peer i).weight
  state : ∀ i < g.number, (g.peer i).state = ⟨0, (g.peer i).weight, 0, 0, 0⟩

theorem RrPeers.Fresh.sound {g : RrPeers} (hg : g.Fresh) : g.Sound := by
  refine ⟨fun i hi => ?_, ?_⟩
  · rw [hg.state i hi]
    exact ⟨(hg.weight i hi).le, le_refl _⟩
  · refine sum_eq_zero fun i hi => ?_
    rw [hg.state i (mem_range.1 hi)]

theorem fresh_groupOf {single : Bool} {name : NgxStr} {l : List RrPeer}
    (hsingle : single = true → l.length = 1)
    (hl : ∀ p ∈ l, 0 < p.weight ∧ p.state = ⟨0, p.weight, 0, 0, 0⟩) : (groupOf single name l).Fresh := by
  have hmem : ∀ i < l.length, l.getD i zeroPeer ∈ l := by
    intro i hi
    rw [List.getD_eq_getElem?_getD, List.getElem?_eq_getElem hi, Option.getD_some]
    exact List.getElem_mem hi
  exact ⟨hsingle, fun i hi => (hl _ (hmem i hi)).1, fun i hi => (hl _ (hmem i hi)).2⟩

theorem mem_serverPeers {backup : Bool} {servers : List UpstreamServer} {p : RrPeer}
    (h : p ∈ serverPeers backup servers) : ∃ v ∈ servers, ∃ a, p = serverPeer v a := by
  rcases List.mem_flatMap.1 h with ⟨v, hv, hp⟩
  split at hp
  · rcases List.mem_map.1 hp with ⟨a, _, rfl⟩
    exact ⟨v, hv, a, rfl⟩
  · exact absurd hp List.not_mem_nil

/-- The weights that the configuration accepts are positive. -/
def UpstreamConf.Weighted (us : UpstreamConf) : Prop :=
  ∀ servers, us.servers = some servers → ∀ v ∈ servers, 0 < v.weight

theorem fresh_init {us : UpstreamConf} {u : Upstream} (hus : us.Weighted)
    (h : ngxHttpUpstreamInitRoundRobin us = some u) :
    u.peers.Fresh ∧ ∀ g, u.next = some g → g.Fresh := by
  rw [ngxHttpUpstreamInitRoundRobin] at h
  cases hservers : us.servers with
  | some servers =>
      have hpeers : ∀ backup, ∀ p ∈ serverPeers backup servers,
          0 < p.weight ∧ p.state = ⟨0, p.weight, 0, 0, 0⟩ := by
        intro backup p hp
        rcases mem_serverPeers hp with ⟨v, hv, a, rfl⟩
        exact ⟨hus servers hservers v hv, rfl⟩
      rw [hservers] at h
      dsimp only at h
      split_ifs at h
      · cases h
        exact ⟨fresh_groupOf (fun hone => of_decide_eq_true hone) (hpeers false), (by simp)⟩
      · cases h
        refine ⟨fresh_groupOf (by simp) (hpeers false), fun g hg => ?_⟩
        cases hg
        exact fresh_groupOf (by simp) (hpeers true)
  | none =>
      rw [hservers] at h
      dsimp only at h
      split_ifs at h
      rcases Option.map_eq_some_iff.1 h with ⟨addrs, _, rfl⟩
      refine ⟨fresh_groupOf (fun hone => ?_) fun p hp => ?_, (by simp)⟩
      · rw [List.length_map]
        exact of_decide_eq_true hone
      · rcases List.mem_map.1 hp with ⟨a, _, rfl⟩
        exact ⟨Int.one_pos, rfl⟩

/-- In every run, whichever requests fail and whenever, what a group's peers have been credited they have
paid, and no effective weight leaves its range. -/
theorem weights_sound {us : UpstreamConf} {u : Upstream} (hus : us.Weighted)
    (h : ngxHttpUpstreamInitRoundRobin us = some u) (events : List Traffic) :
    (Trace.run Service.step (.start u) events).upstream.Sound := by
  rcases fresh_init hus h with ⟨hpeers, hnext⟩
  apply Trace.run_of_along (J := fun v : Service => v.upstream.Sound) (P := fun _ _ => True)
  · exact fun v e hv _ => hv.step e
  · exact ⟨hpeers.sound, fun g hg => (hnext g hg).sound⟩
  · exact fun _ _ _ _ => trivial

/-- The servers of the addresses 10 and 20, of which the first counts three times. -/
def weightedServers : UpstreamConf where
  host := ⟨0, 0⟩
  port := 80
  servers := some [⟨[⟨10, 16, ⟨0, 0⟩⟩], 3, 1, 10, false, false⟩,
    ⟨[⟨20, 16, ⟨0, 0⟩⟩], 1, 1, 10, false, false⟩]
  resolved := none

def weightedPeers : Upstream where
  peers := groupOf false ⟨0, 0⟩ (serverPeers false (weightedServers.servers.getD []))
  next := none

theorem weightedServers_weighted : weightedServers.Weighted := by
  intro servers hservers v hv
  cases hservers
  rcases List.mem_cons.1 hv with rfl | hv
  · decide
  · rw [List.mem_singleton.1 hv]
    decide

/-- A new request. -/
def newRequest : RrPeerData := ⟨0, 0, fun _ => false⟩

def newConnection : PeerConnection := ⟨0, 0, ⟨0, 0⟩, 0, false, 0⟩

theorem weights_sound_failing : (Trace.run Service.step (.start weightedPeers)
    [.get 0 newRequest newConnection, .free 1 true newRequest newConnection,
      .get 2 newRequest newConnection]).upstream.Sound :=
  weights_sound weightedServers_weighted (by rfl) _

/-! ## Shares -/

/-- The peers that may be handed out. -/
def RrPeers.up (g : RrPeers) : Finset Nat := {i ∈ range g.number | (g.peer i).down = false}

def RrPeers.weights (g : RrPeers) (i : Nat) : Int := (g.peer i).weight

def RrPeers.credits (g : RrPeers) (i : Nat) : Int := (g.peer i).state.currentWeight

/-- The group `g` as the requests have left it, of whose peers none has failed. -/
structure RrPeers.Live (g₀ g : RrPeers) : Prop where
  number : g.number = g₀.number
  single : g.single = g₀.single
  weight : ∀ i, (g.peer i).weight = (g₀.peer i).weight
  down : ∀ i, (g.peer i).down = (g₀.peer i).down
  fails : ∀ i < g.number, (g.peer i).state.fails = 0
  effective : ∀ i < g.number, (g.peer i).state.effectiveWeight = (g.peer i).weight

/-- A new request asks for its first peer, or one frees a peer that has not failed. -/
def Traffic.Prompt : Traffic → Prop
  | .get _ d _ => d.peers = 0 ∧ ∀ i, d.tried i = false
  | .free _ failed _ _ => failed = false

section shares

variable {g₀ g : RrPeers} {now : Int}

theorem RrPeers.Live.open_iff (hg : g₀.Live g) {tried : Nat → Bool} (htried : ∀ i, tried i = false) {i : Nat}
    (hi : i < g.number) : Open now tried g.peer i ↔ i ∈ g₀.up := by
  rw [RrPeers.up, mem_filter, mem_range, ← hg.number, ← hg.down]
  constructor
  · rintro ⟨-, hdown, -⟩
    exact ⟨hi, hdown⟩
  · rintro ⟨-, hdown⟩
    refine ⟨htried i, hdown, ?_⟩
    rintro ⟨hmax, hle, -⟩
    rw [hg.fails i hi] at hle
    exact hmax (UInt64.le_zero_iff.1 hle)

/-- Other states for the peers, which leave them live. -/
theorem RrPeers.Live.states (hg : g₀.Live g) {f : Nat → PeerState}
    (hfails : ∀ i < g.number, (f i).fails = 0)
    (heffective : ∀ i < g.number, (f i).effectiveWeight = (g.peer i).weight) :
    g₀.Live { g with peer := fun i => { g.peer i with state := f i } } :=
  ⟨hg.number, hg.single, hg.weight, hg.down, hfails, heffective⟩

/-- A peer at its full weight keeps it in the loop. -/
theorem RrPeers.Live.scanned (hg : g₀.Live g) (tried : Nat → Bool) {i : Nat} (hi : i < g.number) :
    (scanned now tried g.peer i).fails = 0 ∧
      (scanned now tried g.peer i).effectiveWeight = (g.peer i).weight := by
  rw [Ngx.scanned]
  split
  · rw [advanced]
    dsimp only
    rw [if_neg (by rw [hg.effective i hi]; exact lt_irrefl _)]
    exact ⟨hg.fails i hi, hg.effective i hi⟩
  · exact ⟨hg.fails i hi, hg.effective i hi⟩

/-- A group of one peer has nothing to choose from. -/
theorem turn_single (hg : g₀.Live g) (hone : g₀.number = 1) (hup : g₀.up.Nonempty) :
    Rotation.Turn g₀.up g₀.weights g.credits 0 g.credits ∧ (g.peer 0).down = false := by
  have hzero : g₀.up = {0} := by
    rcases hup with ⟨i, hi⟩
    rw [eq_singleton_iff_nonempty_unique_mem]
    refine ⟨⟨i, hi⟩, fun j hj => ?_⟩
    have hlt := mem_range.1 (mem_filter.1 hj).1
    omega
  have hdown : (g.peer 0).down = false := by
    have hmem : 0 ∈ g₀.up := by rw [hzero]; exact mem_singleton_self 0
    rw [hg.down]
    exact (mem_filter.1 hmem).2
  refine ⟨⟨?_, ?_, ?_⟩, hdown⟩
  · rw [hzero]
    exact mem_singleton_self 0
  · intro i hi
    rw [hzero] at hi
    rw [mem_singleton.1 hi]
  · intro i hi
    rw [hzero] at hi
    rw [mem_singleton.1 hi, hzero, sum_singleton, if_pos rfl, add_sub_cancel_right]

variable {s : Balance}

variable (now) in
/-- The choice of the loop is a turn of those that are up. -/
theorem turn_getPeer (hg : g₀.Live (s.groups s.rrp.peers)) (htried : ∀ i, s.rrp.tried i = false)
    (hup : g₀.up.Nonempty) :
    ∃ b, (ngxHttpUpstreamGetPeer now s).1 = some b ∧
      g₀.Live ((ngxHttpUpstreamGetPeer now s).2.groups s.rrp.peers) ∧
      Rotation.Turn g₀.up g₀.weights (s.groups s.rrp.peers).credits b
        ((ngxHttpUpstreamGetPeer now s).2.groups s.rrp.peers).credits := by
  have hscan := scan_range now s.rrp.tried (s.peer s.rrp.peers) (s.groups s.rrp.peers).number
  have hbest := scanned_range now s.rrp.tried (s.peer s.rrp.peers) (s.groups s.rrp.peers).number
  change Scanned now _ _ _ (scanPeers now s) at hbest
  change (∀ i, (scanPeers now s).states i = _) ∧ (scanPeers now s).total = _ at hscan
  rcases hscan with ⟨hstates, htotal⟩
  have hstates : ∀ i < (s.groups s.rrp.peers).number,
      (scanPeers now s).states i = scanned now s.rrp.tried (s.peer s.rrp.peers) i := by
    intro i hi
    rw [hstates, if_pos hi]
  have hopen : ∀ i < (s.groups s.rrp.peers).number,
      (Open now s.rrp.tried (s.peer s.rrp.peers) i ↔ i ∈ g₀.up) := fun i hi => hg.open_iff htried hi
  have hlt : ∀ i ∈ g₀.up, i < (s.groups s.rrp.peers).number := by
    intro i hi
    rw [hg.number]
    exact mem_range.1 (mem_filter.1 hi).1
  have hweight : ∀ i ∈ g₀.up, (s.peer s.rrp.peers i).state.effectiveWeight = g₀.weights i := by
    intro i hi
    exact (hg.effective i (hlt i hi)).trans (hg.weight i)
  -- all that are up have earned their weights
  have hsum : (scanPeers now s).total = ∑ i ∈ g₀.up, g₀.weights i := by
    rw [htotal, sum_congr rfl fun i hi => if_congr (hopen i (mem_range.1 hi)) rfl rfl, ← sum_filter]
    have hfilter : (range (s.groups s.rrp.peers).number).filter (· ∈ g₀.up) = g₀.up := by
      ext i
      rw [mem_filter, mem_range]
      exact and_iff_right_of_imp (hlt i)
    rw [hfilter]
    exact sum_congr rfl hweight
  have hcredit : ∀ i ∈ g₀.up, weightOf (s.peer s.rrp.peers i) =
      (s.groups s.rrp.peers).credits i + g₀.weights i := by
    intro i hi
    rw [weightOf, hweight i hi]
    rfl
  -- a peer that is up is open, so that the scan has found one
  cases hb : (scanPeers now s).best with
  | none =>
      rcases hup with ⟨i, hi⟩
      exact absurd ((hopen i (hlt i hi)).2 hi) (hbest.empty hb i (hlt i hi))
  | some b =>
      rcases (hbest.best b hb).1 with ⟨hbn, hbopen, hheaviest⟩
      have hbup : b ∈ g₀.up := (hopen b hbn).1 hbopen
      have hgroup : (ngxHttpUpstreamGetPeer now s).2.groups s.rrp.peers =
          { s.groups s.rrp.peers with
            peer := fun i => { s.peer s.rrp.peers i with
              state := Function.update (scanPeers now s).states b (takeBest now
                (s.peer s.rrp.peers b) (scanPeers now s).total ((scanPeers now s).states b)) i } } := by
        rw [ngxHttpUpstreamGetPeer, hb]
        exact Balance.groups_setStates_self ..
      rw [hgroup]
      refine ⟨b, by rw [ngxHttpUpstreamGetPeer, hb], hg.states ?_ ?_, hbup, ?_, ?_⟩
      · intro i hi
        by_cases hib : i = b
        · rw [hib, Function.update_self, takeBest, hstates b hbn]
          exact (hg.scanned _ hbn).1
        · rw [Function.update_of_ne hib, hstates i hi]
          exact (hg.scanned _ hi).1
      · intro i hi
        by_cases hib : i = b
        · rw [hib, Function.update_self, takeBest, hstates b hbn]
          exact (hg.scanned _ hbn).2
        · rw [Function.update_of_ne hib, hstates i hi]
          exact (hg.scanned _ hi).2
      · intro i hi
        rw [← hcredit i hi, ← hcredit b hbup]
        exact (hheaviest i (hlt i hi) ((hopen i (hlt i hi)).2 hi)).1
      · -- the peer that is taken pays for all of them
        intro i hi
        have hearned : (Ngx.scanned now s.rrp.tried (s.peer s.rrp.peers) i).currentWeight =
            (s.groups s.rrp.peers).credits i + g₀.weights i := by
          rw [scanned_current, if_pos ((hopen i (hlt i hi)).2 hi), hweight i hi]
          rfl
        rw [← hearned]
        by_cases hib : i = b
        · subst hib
          rw [RrPeers.credits, if_pos rfl, ← hsum]
          dsimp only
          rw [Function.update_self, takeBest, hstates i hbn]
        · rw [RrPeers.credits, if_neg hib, sub_zero]
          dsimp only
          rw [Function.update_of_ne hib, hstates i (hlt i hi)]

variable (now) in
/-- The first call of a request. -/
theorem turn_getRoundRobinPeer (hg : g₀.Live (s.groups 0)) (hpeers : s.rrp.peers = 0)
    (htried : ∀ i, s.rrp.tried i = false) (hsingle : g₀.single = true → g₀.number = 1)
    (hup : g₀.up.Nonempty) (rest : Nat) :
    ∃ b, (ngxHttpUpstreamGetRoundRobinPeer now rest s).1 = some (0, b) ∧
      g₀.Live ((ngxHttpUpstreamGetRoundRobinPeer now rest s).2.groups 0) ∧
      Rotation.Turn g₀.up g₀.weights (s.groups 0).credits b
        ((ngxHttpUpstreamGetRoundRobinPeer now rest s).2.groups 0).credits := by
  suffices hgroup : ∃ b, (groupPeer now s.disconnect).1 = some b ∧
      g₀.Live ((groupPeer now s.disconnect).2.groups 0) ∧
      Rotation.Turn g₀.up g₀.weights (s.groups 0).credits b
        ((groupPeer now s.disconnect).2.groups 0).credits by
    rcases hgroup with ⟨b, hout, hlive, hturn⟩
    rw [getRoundRobinPeer_of_some hout, hpeers]
    exact ⟨b, rfl, hlive, hturn⟩
  have hgroup : s.disconnect.groups s.disconnect.rrp.peers = s.groups 0 := congrArg s.groups hpeers
  rw [groupPeer, hgroup]
  by_cases hone : (s.groups 0).single = true
  · rcases turn_single hg (hsingle (hg.single ▸ hone)) hup with ⟨hturn, hdown⟩
    have hpeer : (s.disconnect.peer s.disconnect.rrp.peers 0).down = false := by
      rw [Balance.peer, hgroup]
      exact hdown
    rw [if_pos hone, hpeer]
    exact ⟨0, rfl, hg, hturn⟩
  · rw [if_neg hone]
    have hturn := turn_getPeer now (s := s.disconnect) (hgroup.symm ▸ hg) htried hup
    rw [hgroup] at hturn
    rw [show s.disconnect.rrp.peers = 0 from hpeers] at hturn
    exact hturn

variable (now) in
/-- A peer that has not failed is left as it was, but for its failures of before. -/
theorem live_free (hg : g₀.Live (s.groups 0)) :
    g₀.Live ((ngxHttpUpstreamFreeRoundRobinPeer now false s).groups 0) ∧
      ((ngxHttpUpstreamFreeRoundRobinPeer now false s).groups 0).credits = (s.groups 0).credits := by
  have hfreed : ∀ p : RrPeer, freedState now false p = p.state ∨
      freedState now false p = { p.state with fails := 0 } := by
    intro p
    rw [freedState, if_neg Bool.false_ne_true]
    split
    · exact .inr rfl
    · exact .inl rfl
  -- of the peer's state only `fails` changes, whichever group it is in
  have hset : g₀.Live ((s.setStates s.rrp.peers (Function.update (fun i => (s.peer s.rrp.peers i).state)
      s.rrp.current (freedState now false (s.peer s.rrp.peers s.rrp.current)))).groups 0) ∧
      ((s.setStates s.rrp.peers (Function.update (fun i => (s.peer s.rrp.peers i).state)
        s.rrp.current (freedState now false (s.peer s.rrp.peers s.rrp.current)))).groups 0).credits =
        (s.groups 0).credits := by
    by_cases hzero : 0 = s.rrp.peers
    · rw [← hzero, Balance.groups_setStates_self]
      refine ⟨hg.states (fun i hi => ?_) fun i hi => ?_, funext fun i => ?_⟩
      · by_cases hib : i = s.rrp.current
        · rw [← hib, Function.update_self]
          rcases hfreed (s.peer 0 i) with hsame | hsame
          · rw [hsame]
            exact hg.fails i hi
          · rw [hsame]
        · rw [Function.update_of_ne hib]
          exact hg.fails i hi
      · by_cases hib : i = s.rrp.current
        · rw [← hib, Function.update_self]
          rcases hfreed (s.peer 0 i) with hsame | hsame
          · rw [hsame]
            exact hg.effective i hi
          · rw [hsame]
            exact hg.effective i hi
        · rw [Function.update_of_ne hib]
          exact hg.effective i hi
      · rw [RrPeers.credits]
        dsimp only
        by_cases hib : i = s.rrp.current
        · rw [← hib, Function.update_self, freedState_current]
          rfl
        · rw [Function.update_of_ne hib]
          rfl
    · rw [Balance.groups_setStates_of_ne _ _ _ hzero]
      exact ⟨hg, rfl⟩
  rw [ngxHttpUpstreamFreeRoundRobinPeer]
  split
  · exact ⟨hg, rfl⟩
  · dsimp only
    split
    · exact hset
    · exact hset

end shares

/-! ### Every run -/

/-- What the service has handed out are turns. -/
def Service.Turning (g₀ : RrPeers) (v : Service) : Prop :=
  g₀.Live v.upstream.peers ∧ ∃ bs : List Nat, v.handed = bs.map (fun i => some (0, i)) ∧
    Rotation.Turns g₀.up g₀.weights g₀.credits bs v.upstream.peers.credits

theorem Service.Turning.step {g₀ : RrPeers} {v : Service} (hv : v.Turning g₀)
    (hsingle : g₀.single = true → g₀.number = 1) (hup : g₀.up.Nonempty) {e : Traffic} (he : e.Prompt) :
    (v.step e).Turning g₀ := by
  rcases hv with ⟨hlive, bs, hhanded, hturns⟩
  cases e with
  | get now d pc =>
      rcases turn_getRoundRobinPeer now (s := v.upstream.serve d pc) hlive he.1 he.2 hsingle hup
        ((v.upstream.serve d pc).count - 1 - d.peers) with ⟨b, hout, hkept, hturn⟩
      refine ⟨hkept, bs ++ [b], ?_, hturns.concat hturn⟩
      change v.handed ++ [_] = _
      rw [hout, hhanded, List.map_append]
      rfl
  | free now failed d pc =>
      cases he
      rcases live_free now (s := v.upstream.serve d pc) hlive with ⟨hkept, hcredits⟩
      refine ⟨hkept, bs, hhanded, ?_⟩
      change Rotation.Turns _ _ _ bs (RrPeers.credits ((ngxHttpUpstreamFreeRoundRobinPeer now false
        (v.upstream.serve d pc)).groups 0))
      rw [hcredits]
      exact hturns

/-- While no peer fails, every request gets a peer that is up, and none of the peers is ever a whole request
ahead of the share its weight gives it; after any number of whole rounds each has had exactly its share. -/
theorem round_robin_fair {us : UpstreamConf} {u : Upstream} (hus : us.Weighted)
    (h : ngxHttpUpstreamInitRoundRobin us = some u) (hup : u.peers.up.Nonempty) {events : List Traffic}
    (hevents : ∀ e ∈ events, e.Prompt) :
    ∃ bs : List Nat,
      (Trace.run Service.step (.start u) events).handed = bs.map (fun i => some (0, i)) ∧
      (∀ b ∈ bs, b ∈ u.peers.up) ∧
      ∀ i ∈ u.peers.up,
        bs.count i * ∑ j ∈ u.peers.up, u.peers.weights j <
          bs.length * u.peers.weights i + ∑ j ∈ u.peers.up, u.peers.weights j ∧
        (∑ j ∈ u.peers.up, u.peers.weights j ∣ (bs.length : ℤ) →
          bs.count i * ∑ j ∈ u.peers.up, u.peers.weights j = bs.length * u.peers.weights i) := by
  have hfresh := (fresh_init hus h).1
  have hpositive : ∀ i ∈ u.peers.up, 0 < u.peers.weights i := fun i hi =>
    hfresh.weight i (mem_range.1 (mem_filter.1 hi).1)
  have hnonneg : ∀ i ∈ u.peers.up, 0 ≤ u.peers.weights i := fun i hi => (hpositive i hi).le
  have hsum : 0 < ∑ j ∈ u.peers.up, u.peers.weights j := sum_pos hpositive hup
  have hstart : ∀ i ∈ u.peers.up, u.peers.credits i = 0 := fun i hi =>
    congrArg PeerState.currentWeight (hfresh.state i (mem_range.1 (mem_filter.1 hi).1))
  have hturning : (Trace.run Service.step (.start u) events).Turning u.peers := by
    apply Trace.run_of_along (J := Service.Turning u.peers) (P := fun _ e => e.Prompt)
    · exact fun v e hv he => hv.step hfresh.single hup he
    · refine ⟨⟨rfl, rfl, fun _ => rfl, fun _ => rfl, fun i hi => ?_, fun i hi => ?_⟩, [], rfl, .nil⟩
      · exact congrArg PeerState.fails (hfresh.state i hi)
      · exact congrArg PeerState.effectiveWeight (hfresh.state i hi)
    · intro before e after hafter
      exact hevents e (by simp [hafter])
  rcases hturning with ⟨_, bs, hhanded, hturns⟩
  refine ⟨bs, hhanded, hturns.mem, fun i hi => ⟨?_, fun hround => ?_⟩⟩
  · exact hturns.count_lt hstart hnonneg hsum hi
  · exact (hturns.count_eq hstart hnonneg hsum hround hi).1

theorem round_robin_fair_threeToOne : ∃ bs : List Nat,
    (Trace.run Service.step (.start weightedPeers)
      (List.replicate 4 (.get 0 newRequest newConnection))).handed = bs.map (fun i => some (0, i)) ∧
    (∀ b ∈ bs, b ∈ weightedPeers.peers.up) ∧
    ∀ i ∈ weightedPeers.peers.up,
      bs.count i * ∑ j ∈ weightedPeers.peers.up, weightedPeers.peers.weights j <
        bs.length * weightedPeers.peers.weights i +
          ∑ j ∈ weightedPeers.peers.up, weightedPeers.peers.weights j ∧
      (∑ j ∈ weightedPeers.peers.up, weightedPeers.peers.weights j ∣ (bs.length : ℤ) →
        bs.count i * ∑ j ∈ weightedPeers.peers.up, weightedPeers.peers.weights j =
          bs.length * weightedPeers.peers.weights i) := by
  apply round_robin_fair weightedServers_weighted (by rfl) ⟨0, by decide⟩
  intro e he
  rw [List.eq_of_mem_replicate he]
  exact ⟨rfl, fun _ => rfl⟩

end Ngx
end CppPractice
