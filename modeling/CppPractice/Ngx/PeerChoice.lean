import CppPractice.Ngx.LoadBalance

/-!
# PeerChoice — which peer a request gets

The round robin looks for open peers, which are neither down nor tried nor failed too often of late.  In the
first group that has any it hands out the heaviest, and marks it as tried; so it gives no request a peer
twice.

The draws of `NdgLoadBalanceCallback::get` look at none of this and leave no mark.
-/

namespace CppPractice
namespace Ngx

/-! ## The heaviest open peer -/

/-- The loop of `ngx_http_upstream_get_peer` does not pass over the peer at `i`. -/
def Open (now : Int) (tried : Nat → Bool) (peer : Nat → RrPeer) (i : Nat) : Prop :=
  tried i = false ∧ (peer i).down = false ∧
    ¬((peer i).maxFails ≠ 0 ∧ (peer i).maxFails ≤ (peer i).state.fails ∧
      now - (peer i).state.checked ≤ (peer i).failTimeout)

/-- What a peer weighs in a round. -/
def weightOf (p : RrPeer) : Int := p.state.currentWeight + p.state.effectiveWeight

/-- The first of the heaviest open peers before `n`. -/
structure Best (now : Int) (tried : Nat → Bool) (peer : Nat → RrPeer) (n b : Nat) : Prop where
  lt : b < n
  isOpen : Open now tried peer b
  heaviest : ∀ i < n, Open now tried peer i → weightOf (peer i) ≤ weightOf (peer b) ∧
    (i < b → weightOf (peer i) < weightOf (peer b))

section scan

variable {now : Int} {tried : Nat → Bool} {peer : Nat → RrPeer} {n b b' : Nat} {t : Scan}

theorem Best.unique (hb : Best now tried peer n b) (hb' : Best now tried peer n b') : b = b' := by
  rcases hb.heaviest b' hb'.lt hb'.isOpen with ⟨hle, hlt⟩
  rcases hb'.heaviest b hb.lt hb.isOpen with ⟨hle', hlt'⟩
  rcases Nat.lt_trichotomy b b' with hbefore | heq | hafter
  · exact absurd (hlt' hbefore) (Int.not_lt.2 hle)
  · exact heq
  · exact absurd (hlt hafter) (Int.not_lt.2 hle')

/-- The best so far stays if the next peer is not open or not heavier. -/
theorem Best.succ (hb : Best now tried peer n b)
    (hn : Open now tried peer n → weightOf (peer n) ≤ weightOf (peer b)) :
    Best now tried peer (n + 1) b := by
  refine ⟨Nat.lt_succ_of_lt hb.lt, hb.isOpen, ?_⟩
  intro i hi hopen
  rcases Nat.lt_succ_iff_lt_or_eq.1 hi with hi | rfl
  · exact hb.heaviest i hi hopen
  · exact ⟨hn hopen, fun hlt => absurd hb.lt (Nat.lt_asymm hlt)⟩

/-- The next peer is the best if it is heavier than all before it. -/
theorem Best.next (hopen : Open now tried peer n)
    (hlt : ∀ i < n, Open now tried peer i → weightOf (peer i) < weightOf (peer n)) :
    Best now tried peer (n + 1) n := by
  refine ⟨Nat.lt_succ_self n, hopen, ?_⟩
  intro i hi hopeni
  rcases Nat.lt_succ_iff_lt_or_eq.1 hi with hi | rfl
  · exact ⟨Int.le_of_lt (hlt i hi hopeni), fun _ => hlt i hi hopeni⟩
  · exact ⟨Int.le_refl _, fun hself => absurd hself (Nat.lt_irrefl _)⟩

/-- The loop has seen the peers before `n`. -/
structure Scanned (now : Int) (tried : Nat → Bool) (peer : Nat → RrPeer) (n : Nat) (t : Scan) :
    Prop where
  later : ∀ i, n ≤ i → t.states i = (peer i).state
  empty : t.best = none → ∀ i < n, ¬Open now tried peer i
  best : ∀ b, t.best = some b → Best now tried peer n b ∧
    (t.states b).currentWeight = weightOf (peer b)

theorem scanPeer_closed (hstate : t.states n = (peer n).state) (hclosed : ¬Open now tried peer n) :
    scanPeer now tried (peer n) n t = t := by
  rw [scanPeer, hstate]
  split_ifs with htried hdown hfails
  · rfl
  · rfl
  · rfl
  · refine absurd ⟨?_, ?_, hfails⟩ hclosed
    · simpa using htried
    · simpa using hdown

theorem scanPeer_open (hstate : t.states n = (peer n).state) (hopen : Open now tried peer n) :
    ∃ y, y.currentWeight = weightOf (peer n) ∧
      (scanPeer now tried (peer n) n t).states = Function.update t.states n y ∧
      (scanPeer now tried (peer n) n t).best = match t.best with
        | none => some n
        | some b => if (t.states b).currentWeight < weightOf (peer n) then some n else some b := by
  rcases hopen with ⟨htried, hdown, hfails⟩
  rw [scanPeer, hstate, if_neg (by rw [htried]; exact Bool.false_ne_true),
    if_neg (by rw [hdown]; exact Bool.false_ne_true), if_neg hfails]
  exact ⟨_, rfl, rfl, rfl⟩

theorem Scanned.of_some (hlater : ∀ i, n ≤ i → t.states i = (peer i).state) (ht : t.best = some b)
    (hb : Best now tried peer n b) (hweight : (t.states b).currentWeight = weightOf (peer b)) :
    Scanned now tried peer n t := by
  refine ⟨hlater, fun hnone => ?_, fun b' hb' => ?_⟩
  · rw [ht] at hnone
    cases hnone
  · obtain rfl : b = b' := Option.some.inj (ht.symm.trans hb')
    exact ⟨hb, hweight⟩

/-- One round of the loop. -/
theorem Scanned.step (ht : Scanned now tried peer n t) :
    Scanned now tried peer (n + 1) (scanPeer now tried (peer n) n t) := by
  have hstate := ht.later n (Nat.le_refl n)
  by_cases hopen : Open now tried peer n
  -- A peer that is passed over changes neither the weights nor the choice.
  case neg =>
    rw [scanPeer_closed hstate hopen]
    refine ⟨fun i hi => ht.later i (Nat.le_of_succ_le hi), ?_, ?_⟩
    · intro hnone i hi
      rcases Nat.lt_succ_iff_lt_or_eq.1 hi with hi | rfl
      · exact ht.empty hnone i hi
      · exact hopen
    · intro b hb
      exact ⟨(ht.best b hb).1.succ fun h => absurd h hopen, (ht.best b hb).2⟩
  rcases scanPeer_open hstate hopen with ⟨y, hy, hstates, hbest⟩
  have hothers : ∀ i, i ≠ n → (scanPeer now tried (peer n) n t).states i = t.states i := by
    intro i hi
    rw [hstates, Function.update_of_ne hi]
  have hlater : ∀ i, n + 1 ≤ i → (scanPeer now tried (peer n) n t).states i = (peer i).state := by
    intro i hi
    rw [hothers i (Nat.ne_of_gt hi)]
    exact ht.later i (Nat.le_of_succ_le hi)
  have hnext : ((scanPeer now tried (peer n) n t).states n).currentWeight = weightOf (peer n) := by
    rw [hstates, Function.update_self]
    exact hy
  cases hb : t.best with
  | none =>
      rw [hb] at hbest
      exact Scanned.of_some hlater hbest
        (Best.next hopen fun i hi hopeni => absurd hopeni (ht.empty hb i hi)) hnext
  | some b =>
      rcases ht.best b hb with ⟨hbestb, hweight⟩
      simp only [hb, hweight] at hbest
      -- Of peers that are equally heavy the earlier one stays.
      by_cases hheavier : weightOf (peer b) < weightOf (peer n)
      · rw [if_pos hheavier] at hbest
        refine Scanned.of_some hlater hbest (Best.next hopen fun i hi hopeni => ?_) hnext
        exact Int.lt_of_le_of_lt (hbestb.heaviest i hi hopeni).1 hheavier
      · rw [if_neg hheavier] at hbest
        refine Scanned.of_some hlater hbest (hbestb.succ fun _ => Int.not_lt.1 hheavier) ?_
        rw [hothers b (Nat.ne_of_lt hbestb.lt)]
        exact hweight

/-- The whole loop. -/
theorem scanned_range (now : Int) (tried : Nat → Bool) (peer : Nat → RrPeer) (n : Nat) :
    Scanned now tried peer n ((List.range n).foldl (fun t i => scanPeer now tried (peer i) i t)
      ⟨fun i => (peer i).state, 0, none⟩) := by
  induction n with
  | zero =>
      refine ⟨fun _ _ => rfl, fun _ i hi => absurd hi (Nat.not_lt_zero i), fun b hb => ?_⟩
      cases hb
  | succ n ih =>
      rw [List.range_succ, List.foldl_append]
      exact ih.step

end scan

/-! ## The round robin -/

/-- What the request has tried of group `g`; of a group to come, nothing. -/
def Balance.triedIn (s : Balance) (g : Nat) : Nat → Bool :=
  if g = s.rrp.peers then s.rrp.tried else fun _ => false

/-- The peer `p` is the heaviest open one of the first group that has any. -/
def Chosen (now : Int) (s : Balance) (p : Nat × Nat) : Prop :=
  s.rrp.peers ≤ p.1 ∧ p.1 < s.count ∧
    (∀ g, s.rrp.peers ≤ g → g < p.1 →
      ∀ i < (s.groups g).number, ¬Open now (s.triedIn g) (s.peer g) i) ∧
    Best now (s.triedIn p.1) (s.peer p.1) (s.groups p.1).number p.2

section choice

variable {now : Int} {s t : Balance} {p q : Nat × Nat}

theorem open_congr {tried tried' : Nat → Bool} {peer : Nat → RrPeer} {i : Nat}
    (h : tried i = tried' i) : Open now tried peer i ↔ Open now tried' peer i := by
  rw [Open, Open, h]

theorem best_congr {tried tried' : Nat → Bool} {peer : Nat → RrPeer} {n b : Nat}
    (h : ∀ i < n, tried i = tried' i) : Best now tried peer n b ↔ Best now tried' peer n b := by
  constructor
  · intro hb
    exact ⟨hb.lt, (open_congr (h b hb.lt)).1 hb.isOpen,
      fun i hi hopen => hb.heaviest i hi ((open_congr (h i hi)).2 hopen)⟩
  · intro hb
    exact ⟨hb.lt, (open_congr (h b hb.lt)).2 hb.isOpen,
      fun i hi hopen => hb.heaviest i hi ((open_congr (h i hi)).1 hopen)⟩

theorem Chosen.unique (hp : Chosen now s p) (hq : Chosen now s q) : p = q := by
  rcases hp with ⟨hpg, -, hpbefore, hpbest⟩
  rcases hq with ⟨hqg, -, hqbefore, hqbest⟩
  rcases Nat.lt_trichotomy p.1 q.1 with hlt | heq | hgt
  · exact absurd hpbest.isOpen (hqbefore p.1 hpg hlt p.2 hpbest.lt)
  · rw [heq] at hpbest
    exact Prod.ext heq (hpbest.unique hqbest)
  · exact absurd hqbest.isOpen (hpbefore q.1 hqg hgt q.2 hqbest.lt)

/-- The choice within the present group. -/
theorem groupPeer_choice (now : Int) (hs : Several s) :
    (∀ g, g ≠ s.rrp.peers → (groupPeer now s.disconnect).2.groups g = s.groups g) ∧
      ((groupPeer now s.disconnect).1 = none → (groupPeer now s.disconnect).2.rrp = s.rrp ∧
        ∀ i < (s.groups s.rrp.peers).number,
          ¬Open now s.rrp.tried (s.peer s.rrp.peers) i) ∧
      ∀ i, (groupPeer now s.disconnect).1 = some i →
        (groupPeer now s.disconnect).2.rrp =
          ⟨s.rrp.peers, i, Function.update s.rrp.tried i true⟩ ∧
        Best now s.rrp.tried (s.peer s.rrp.peers) (s.groups s.rrp.peers).number i := by
  have hsingle : (s.disconnect.groups s.disconnect.rrp.peers).single = false := hs.single _ hs.group
  have hscan : Scanned now s.rrp.tried (s.peer s.rrp.peers) (s.groups s.rrp.peers).number
      (scanPeers now s.disconnect) := scanned_range now _ _ _
  rw [groupPeer, hsingle, if_neg Bool.false_ne_true, ngxHttpUpstreamGetPeer]
  cases hbest : (scanPeers now s.disconnect).best with
  | none =>
      refine ⟨fun g hg => Balance.groups_setStates_of_ne _ _ _ hg, fun _ => ⟨rfl, ?_⟩, fun i hi => ?_⟩
      · exact hscan.empty hbest
      · cases hi
  | some b =>
      refine ⟨fun g hg => Balance.groups_setStates_of_ne _ _ _ hg, fun hnone => ?_, fun i hi => ?_⟩
      · cases hnone
      · cases hi
        exact ⟨rfl, (hscan.best b hbest).1⟩

/-- What the round robin returns and leaves: its choice, which is tried from then on, and what has been
tried before is so still. -/
structure Served (now : Int) (s : Balance) (out : Option (Nat × Nat)) (t : Balance) : Prop where
  later : s.rrp.peers ≤ t.rrp.peers
  kept : t.rrp.peers = s.rrp.peers → ∀ i, s.rrp.tried i = true → t.rrp.tried i = true
  chosen : ∀ p, out = some p → Chosen now s p ∧ p.1 = t.rrp.peers ∧ t.rrp.tried p.2 = true
  busy : out = none → ∀ p, ¬Chosen now s p

/-- In the next group nothing has been tried; the groups to come are as they were. -/
theorem nextGroup_spec (hs : Several s) (hnone : (groupPeer now s.disconnect).1 = none) :
    ∃ n, nextGroup (groupPeer now s.disconnect).2 = n ∧ n.shape = s.shape ∧
      n.rrp.peers = s.rrp.peers + 1 ∧ (∀ g, s.rrp.peers < g → n.groups g = s.groups g) ∧
      ∀ g, s.rrp.peers < g → ∀ i < (s.groups g).number, n.triedIn g i = s.triedIn g i := by
  rcases groupPeer_choice now hs with ⟨hothers, hclosed, -⟩
  have hrrp := (hclosed hnone).1
  have hpeers : (nextGroup (groupPeer now s.disconnect).2).rrp.peers = s.rrp.peers + 1 := by
    rw [← hrrp]
    rfl
  refine ⟨_, rfl, (Balance.shape_nextGroup _).trans (groupPeer_spec now hs).1, hpeers, ?_, ?_⟩
  · exact fun g hg => hothers g (Nat.ne_of_gt hg)
  · intro g hg i hi
    have hnew : s.triedIn g i = false := by
      rw [Balance.triedIn, if_neg (Nat.ne_of_gt hg)]
    rw [hnew, Balance.triedIn]
    split
    case isTrue hnext =>
      rw [hpeers] at hnext
      -- the words that are cleared have a bit for each peer of the group
      have hwords : i < 64 * ((((groupPeer now s.disconnect).2.groups
          ((groupPeer now s.disconnect).2.rrp.peers + 1)).number + 63) / 64) := by
        rw [hrrp, ← hnext, hothers g (Nat.ne_of_gt hg)]
        omega
      exact if_pos hwords
    case isFalse => rfl

/-- The choice is that of the groups to come if the present group has no open peer. -/
theorem chosen_nextGroup_iff (hs : Several s) (hnone : (groupPeer now s.disconnect).1 = none) :
    Chosen now (nextGroup (groupPeer now s.disconnect).2) p ↔ Chosen now s p := by
  have hclosed := ((groupPeer_choice now hs).2.1 hnone).2
  rcases nextGroup_spec hs hnone with ⟨n, hn, hshape, hpeers, hgroup, htried⟩
  have hcount : n.count = s.count := congrArg Shape.count hshape
  have hpeer : ∀ g, s.rrp.peers < g → n.peer g = s.peer g := by
    intro g hg
    funext i
    rw [Balance.peer, Balance.peer, hgroup g hg]
  have hpresent : s.triedIn s.rrp.peers = s.rrp.tried := if_pos rfl
  rw [hn, Chosen, Chosen, hpeers, hcount]
  constructor
  · rintro ⟨hle, hlt, hbefore, hbest⟩
    rw [hgroup p.1 hle, hpeer p.1 hle, best_congr (htried p.1 hle)] at hbest
    refine ⟨Nat.le_of_succ_le hle, hlt, ?_, hbest⟩
    intro g hg hgp i hi
    rcases Nat.lt_or_eq_of_le hg with hg | rfl
    · rw [← open_congr (htried g hg i hi), ← hpeer g hg]
      exact hbefore g hg hgp i (by rw [hgroup g hg]; exact hi)
    · rw [hpresent]
      exact hclosed i hi
  · rintro ⟨hle, hlt, hbefore, hbest⟩
    have hgt : s.rrp.peers < p.1 := by
      apply Nat.lt_of_le_of_ne hle
      intro heq
      rw [← heq, hpresent] at hbest
      exact hclosed p.2 hbest.lt hbest.isOpen
    rw [hgroup p.1 hgt, hpeer p.1 hgt, best_congr (htried p.1 hgt)]
    refine ⟨hgt, hlt, ?_, hbest⟩
    intro g hg hgp i hi
    rw [hgroup g hg] at hi
    rw [hpeer g hg, open_congr (htried g hg i hi)]
    exact hbefore g (Nat.le_of_succ_le hg) hgp i hi

theorem served_some {rest i : Nat} (hs : Several s) (h : (groupPeer now s.disconnect).1 = some i) :
    Served now s (ngxHttpUpstreamGetRoundRobinPeer now rest s).1
      (ngxHttpUpstreamGetRoundRobinPeer now rest s).2 := by
  rcases (groupPeer_choice now hs).2.2 i h with ⟨hrrp, hbest⟩
  have htried : s.triedIn s.rrp.peers = s.rrp.tried := if_pos rfl
  rw [getRoundRobinPeer_of_some h]
  refine ⟨?_, ?_, ?_, fun hnone => ?_⟩
  · exact Nat.le_of_eq (congrArg RrPeerData.peers hrrp).symm
  · intro _ j hj
    rw [Balance.rrp_connect, hrrp]
    by_cases hji : j = i
    · rw [hji]
      exact Function.update_self ..
    · exact (Function.update_of_ne hji ..).trans hj
  · intro p hp
    cases hp
    rw [Balance.rrp_connect, hrrp]
    refine ⟨⟨Nat.le_refl _, hs.group, ?_, htried.symm ▸ hbest⟩, rfl, Function.update_self ..⟩
    exact fun g hg hlt => absurd hlt (Nat.not_lt.2 hg)
  · cases hnone

/-- The last group has no open peer. -/
theorem served_busy (hs : Several s) (h : (groupPeer now s.disconnect).1 = none)
    (hlast : s.rrp.peers + 1 = s.count) :
    Served now s none (busy s.rrp.peers (groupPeer now s.disconnect).2) := by
  rcases (groupPeer_choice now hs).2.1 h with ⟨hrrp, hclosed⟩
  have hpresent : s.triedIn s.rrp.peers = s.rrp.tried := if_pos rfl
  refine ⟨Nat.le_of_eq (congrArg RrPeerData.peers hrrp).symm, ?_, fun p hp => ?_, fun _ p hp => ?_⟩
  · intro _ i hi
    rw [Balance.rrp_busy, hrrp]
    exact hi
  · cases hp
  · rcases hp with ⟨hle, hlt, -, hbest⟩
    have hgroup : p.1 = s.rrp.peers := by omega
    rw [hgroup, hpresent] at hbest
    exact hclosed p.2 hbest.lt hbest.isOpen

/-- The groups to come serve for the present one if it has no open peer. -/
theorem Served.of_next {out : Option (Nat × Nat)} {t' : Balance} (hs : Several s)
    (h : (groupPeer now s.disconnect).1 = none)
    (hnext : Served now (nextGroup (groupPeer now s.disconnect).2) out t) (hrrp : t'.rrp = t.rrp) :
    Served now s out t' := by
  have hlater : s.rrp.peers < t'.rrp.peers := by
    rcases nextGroup_spec hs h with ⟨n, hn, -, hpeers, -⟩
    have hle := hnext.later
    rw [hn, hpeers] at hle
    rw [hrrp]
    exact hle
  refine ⟨Nat.le_of_lt hlater, fun heq => absurd heq (Nat.ne_of_gt hlater), fun p hp => ?_,
    fun hnone p hp => hnext.busy hnone p ((chosen_nextGroup_iff hs h).2 hp)⟩
  rw [hrrp]
  rcases hnext.chosen p hp with ⟨hchosen, htried⟩
  exact ⟨(chosen_nextGroup_iff hs h).1 hchosen, htried⟩

/-- The round robin hands out its choice. -/
theorem served_roundRobin (now : Int) {rest : Nat} (hs : Several s)
    (hrest : s.rrp.peers + rest + 1 = s.count) :
    Served now s (ngxHttpUpstreamGetRoundRobinPeer now rest s).1
      (ngxHttpUpstreamGetRoundRobinPeer now rest s).2 := by
  -- `rest` is the number of groups of backups to come
  induction rest generalizing s with
  | zero =>
      cases hout : (groupPeer now s.disconnect).1 with
      | some i => exact served_some hs hout
      | none =>
          rw [getRoundRobinPeer_zero hout]
          exact served_busy hs hout hrest
  | succ rest ih =>
      cases hout : (groupPeer now s.disconnect).1 with
      | some i => exact served_some hs hout
      | none =>
          rcases nextGroup_spec hs hout with ⟨n, hn, hshape, hpeers, -⟩
          have hcount : n.count = s.count := congrArg Shape.count hshape
          have hnext : Served now n (ngxHttpUpstreamGetRoundRobinPeer now rest n).1
              (ngxHttpUpstreamGetRoundRobinPeer now rest n).2 := by
            apply ih
            · apply hs.of_shape hshape
              change n.rrp.peers < s.count
              omega
            · omega
          rw [getRoundRobinPeer_succ hout, hn]
          rcases hr : ngxHttpUpstreamGetRoundRobinPeer now rest n with ⟨out, t⟩
          rw [hr] at hnext
          cases out with
          | none => exact (hn ▸ hnext).of_next hs hout (Balance.rrp_busy _ _)
          | some p => exact (hn ▸ hnext).of_next hs hout rfl

end choice

/-! ## The peers of a request -/

/-- A request and the peers that it has been given: those that were drawn, and those that the round robin
has chosen. -/
structure Request where
  balance : Balance
  drawn : List (Nat × Nat)
  chosen : List (Nat × Nat)

/-- A peer of the upstream that is not marked down. -/
def Balance.Up (s : Balance) (p : Nat × Nat) : Prop :=
  p.1 < s.count ∧ p.2 < (s.groups p.1).number ∧ (s.peer p.1 p.2).down = false

namespace Request

def start (u : Upstream) (pc : PeerConnection) : Request := ⟨NgxLoadBalance.init u pc, [], []⟩

def handed (q : Request) : List (Nat × Nat) := q.drawn ++ q.chosen

/-- Every peer that is up has been handed out. -/
def AllTried (q : Request) : Prop := ∀ p, q.balance.Up p → p ∈ q.handed

def step (q : Request) (r : Round) : Request :=
  match (r.get q.balance).1 with
  | none => { q with balance := r.step q.balance }
  | some p =>
      if 5 < q.balance.tries then
        { q with balance := r.step q.balance, chosen := p :: q.chosen }
      else
        { q with balance := r.step q.balance, drawn := p :: q.drawn }

/-- The peer that is handed out is not down unless all are, and has not been handed out before unless all
that are up have. -/
def AvoidsBad (q : Request) (r : Round) : Prop :=
  ∀ p, (r.get q.balance).1 = some p →
    ((q.balance.peer p.1 p.2).down = true → ∀ p', ¬q.balance.Up p') ∧ (p ∈ q.handed → q.AllTried)

/-- The place that the random number selects. -/
def draw (q : Request) (r : Round) : Nat × Nat :=
  (q.balance.rrp.peers, r.random % (q.balance.groups q.balance.rrp.peers).number)

/-- The random number selects a peer that is up and new, if there is one; and once the round robin chooses,
its choice is not one of the peers that were drawn, unless all that are up have been handed out. -/
def Lucky (q : Request) (r : Round) : Prop :=
  (q.balance.tries ≤ 5 →
    ((q.balance.peer (q.draw r).1 (q.draw r).2).down = true → ∀ p, ¬q.balance.Up p) ∧
    (q.draw r ∈ q.handed → q.AllTried)) ∧
  (5 < q.balance.tries → ∀ p ∈ q.drawn, Chosen r.now (q.balance.disturb r.others) p → q.AllTried)

/-- What the round robin has chosen is behind the request or tried. -/
structure Sound (q : Request) : Prop where
  several : Several q.balance
  tried : ∀ p ∈ q.chosen, p.1 < q.balance.rrp.peers ∨
    (p.1 = q.balance.rrp.peers ∧ q.balance.rrp.tried p.2 = true)

end Request

section request

variable {s : Balance} {q : Request} {r : Round}

theorem served_get (hs : Several s) (htries : 5 < s.tries) :
    Served r.now (s.disturb r.others) (r.get s).1 (r.get s).2 := by
  have hseveral : Several { s.disturb r.others with tries := s.tries + 1 } := hs.of_shape rfl hs.group
  have hrest : s.rrp.peers + (s.count - 1 - s.rrp.peers) + 1 = s.count := by
    have hgroup : s.rrp.peers < s.count := hs.group
    omega
  have hserved := served_roundRobin r.now hseveral hrest
  rw [get_eq_roundRobin htries]
  exact ⟨hserved.later, hserved.kept, hserved.chosen, hserved.busy⟩

/-- A `free` leaves the request at its peers. -/
theorem rrp_step (hs : Several s) : (r.step s).rrp = (r.get s).2.rrp := by
  cases hout : (r.get s).1 with
  | none => rw [step_of_none (Or.inl hout)]
  | some p =>
      cases hfree : r.freeing with
      | none => rw [step_of_none (Or.inr hfree)]
      | some f =>
          rw [step_of_free hout hfree]
          exact (shape_free f.now f.failed (several_freeing hs f)).2

/-- The round robin chooses no peer that is down, and none that it has chosen before. -/
theorem Request.Sound.not_chosen (hq : q.Sound) {p : Nat × Nat}
    (hp : Chosen r.now (q.balance.disturb r.others) p) :
    (q.balance.peer p.1 p.2).down = false ∧ p ∉ q.chosen := by
  rcases hp with ⟨hle, -, -, hbest⟩
  refine ⟨hbest.isOpen.2.1, fun hmem => ?_⟩
  rcases hq.tried p hmem with hlt | ⟨hgroup, htried⟩
  · exact absurd hle (Nat.not_le.2 hlt)
  · have huntried := hbest.isOpen.1
    have hpresent : (q.balance.disturb r.others).triedIn p.1 = q.balance.rrp.tried := if_pos hgroup
    rw [hpresent, htried] at huntried
    cases huntried

/-- One round: bad peers are avoided exactly when the draw is lucky. -/
theorem Request.Sound.avoidsBad_iff (hq : q.Sound) : q.AvoidsBad r ↔ q.Lucky r := by
  by_cases htries : 5 < q.balance.tries
  · have hserved := served_get (r := r) hq.several htries
    constructor
    · intro havoids
      refine ⟨fun hle => absurd htries (UInt8.not_lt.2 hle), fun _ p hp hchosen => ?_⟩
      cases hout : (r.get q.balance).1 with
      | none => exact absurd hchosen (hserved.busy hout p)
      | some p' =>
          obtain rfl : p' = p := (hserved.chosen p' hout).1.unique hchosen
          exact (havoids p' hout).2 (List.mem_append_left _ hp)
    · rintro ⟨-, hlucky⟩ p hout
      have hchosen := (hserved.chosen p hout).1
      rcases hq.not_chosen hchosen with ⟨hup, hnew⟩
      refine ⟨fun hdown => ?_, fun hmem => ?_⟩
      · rw [hup] at hdown
        cases hdown
      · rcases List.mem_append.1 hmem with hdrawn | hold
        · exact hlucky htries p hdrawn hchosen
        · exact absurd hold hnew
  · have hle := UInt8.not_lt.1 htries
    have hout : (r.get q.balance).1 = some (q.draw r) := (get_of_le hq.several hle).1
    constructor
    · intro havoids
      exact ⟨fun _ => havoids _ hout, fun hlt => absurd hlt htries⟩
    · rintro ⟨hlucky, -⟩ p hp
      obtain rfl : q.draw r = p := Option.some.inj (hout.symm.trans hp)
      exact hlucky hle

/-- What has been chosen stays behind the request or tried. -/
theorem Request.Sound.step (hq : q.Sound) (r : Round) : (q.step r).Sound := by
  have hseveral : Several (r.step q.balance) := several_step hq.several
  have hrrp : (r.step q.balance).rrp = (r.get q.balance).2.rrp := rrp_step hq.several
  have hkept : ∀ p ∈ q.chosen, p.1 < (r.step q.balance).rrp.peers ∨
      (p.1 = (r.step q.balance).rrp.peers ∧ (r.step q.balance).rrp.tried p.2 = true) := by
    intro p hp
    rw [hrrp]
    by_cases htries : 5 < q.balance.tries
    · have hserved := served_get (r := r) hq.several htries
      rcases hq.tried p hp with hlt | ⟨hgroup, htried⟩
      · exact Or.inl (Nat.lt_of_lt_of_le hlt hserved.later)
      · rcases Nat.lt_or_eq_of_le hserved.later with hlt | heq
        · exact Or.inl (hgroup ▸ hlt)
        · exact Or.inr ⟨hgroup.trans heq, hserved.kept heq.symm p.2 htried⟩
    · rcases get_of_le (r := r) hq.several (UInt8.not_lt.1 htries) with ⟨hout, hspec⟩
      rw [(hspec.handed _ hout).2]
      exact hq.tried p hp
  rw [Request.step]
  cases hout : (r.get q.balance).1 with
  | none => exact ⟨hseveral, hkept⟩
  | some p =>
      dsimp only
      split
      case isTrue htries =>
        refine ⟨hseveral, fun p' hp' => ?_⟩
        rcases List.mem_cons.1 hp' with rfl | hp'
        · right
          rw [hrrp]
          exact ((served_get hq.several htries).chosen p' hout).2
        · exact hkept p' hp'
      case isFalse => exact ⟨hseveral, hkept⟩

end request

/-- In a run of a request of an upstream with several peers, bad peers are avoided if, and only if, every
draw is lucky and the round robin comes upon no peer that was drawn. -/
theorem bad_peers_avoided_iff {us : UpstreamConf} {u : Upstream}
    (hinit : ngxHttpUpstreamInitRoundRobin us = some u) (hseveral : 2 ≤ ngxHttpUpstreamTries u)
    (pc : PeerConnection) (rounds : List Round) :
    Trace.Along Request.step Request.AvoidsBad (Request.start u pc) rounds ↔
      Trace.Along Request.step Request.Lucky (Request.start u pc) rounds := by
  apply Trace.along_iff_along (J := Request.Sound)
  · exact fun q r hq _ => hq.step r
  · exact fun q r hq => hq.avoidsBad_iff
  · refine ⟨several_init hinit hseveral pc, fun p hp => ?_⟩
    cases hp

theorem bad_peers_avoided_distinct : Trace.Along Request.step Request.AvoidsBad
    (Request.start twoPeers ⟨0, 0, ⟨0, 0⟩, 0, false, 0⟩) [failingRound 4, failingRound 3] := by
  have hinit : ngxHttpUpstreamInitRoundRobin twoServers = some twoPeers := by rfl
  apply (bad_peers_avoided_iff hinit (by decide) _ _).2
  rw [Trace.along_cons, Trace.along_cons]
  refine ⟨⟨fun _ => ⟨fun hdown => ?_, fun hmem => ?_⟩, fun _ p hp => ?_⟩,
    ⟨fun _ => ⟨fun hdown => ?_, fun hmem => ?_⟩, fun hlt => ?_⟩, Trace.along_nil _⟩
  · cases hdown
  · cases hmem
  · cases hp
  · cases hdown
  · exact absurd hmem (by decide)
  · exact absurd hlt (by decide)

/-- The servers of the addresses 10 and 20, the second of which is down. -/
def oneDownServers : UpstreamConf where
  host := ⟨0, 0⟩
  port := 80
  servers := some [⟨[⟨10, 16, ⟨0, 0⟩⟩], 1, 1, 10, false, false⟩,
    ⟨[⟨20, 16, ⟨0, 0⟩⟩], 1, 1, 10, true, false⟩]
  resolved := none

def oneDown : Upstream where
  peers := groupOf false ⟨0, 0⟩ (serverPeers false (oneDownServers.servers.getD []))
  next := none

/-- The peer that is down is drawn while the other is up, and a peer is drawn again while the other has not
been tried. -/
theorem bad_peers_drawn :
    (ngxHttpUpstreamInitRoundRobin oneDownServers = some oneDown ∧
      ¬Trace.Along Request.step Request.AvoidsBad
        (Request.start oneDown ⟨0, 0, ⟨0, 0⟩, 0, false, 0⟩) [failingRound 1]) ∧
      ngxHttpUpstreamInitRoundRobin twoServers = some twoPeers ∧
      ¬Trace.Along Request.step Request.AvoidsBad
        (Request.start twoPeers ⟨0, 0, ⟨0, 0⟩, 0, false, 0⟩) [failingRound 0, failingRound 0] := by
  rw [Trace.along_cons, Trace.along_cons, Trace.along_cons]
  refine ⟨⟨rfl, ?_⟩, rfl, ?_⟩
  · rintro ⟨havoids, -⟩
    exact (havoids (0, 1) rfl).1 rfl (0, 0) ⟨Nat.one_pos, Nat.two_pos, rfl⟩
  · rintro ⟨-, havoids, -⟩
    have hall := (havoids (0, 0) rfl).2 (by decide)
    exact absurd (hall (0, 1) ⟨Nat.one_pos, Nat.one_lt_two, rfl⟩) (by decide)

end Ngx
end CppPractice
