import CppPractice.Redis.Socket

/-!
# Reader — lines and counted blocks

`_read_line` and `_read_n`, the two functions through which the client takes bytes from its socket,
and what they do on a working connection, however the bytes arrive.

The judgment is `Decodes p bs out o left out'`: whatever the schedule of arrivals and signals, the
run of `p` on the stream `bs` with the caller's containers `out` ends with `o`, leaves exactly
`left` unread, sends nothing, and leaves `out'` in the containers.
-/

namespace CppPractice
namespace Redis

open Program

section Source

variable {σ : Type}

/-! ## `_read_line` -/

/-- The loop of `_read_line`; `oss` is what has been written to the string stream.

`total_bytes_read` is declared as 0 and never updated, so the test against `max_size` compares 0.
The result of the second `recv` is stored and not looked at. -/
def readLineLoop (maxSize : Int) : Nat → Bytes → Conn σ Bytes
  | 0, _ => Prog.halt .blocks
  | fuel + 1, oss =>
      if ¬ 0 < maxSize then
        pure oss
      else do
        match ← recvRetry 64 true with
        | .waits | .interrupted => Prog.halt .blocks
        | .closed => redisError (.connection (text "connection was closed"))
        -- `memchr(buffer, '\n', bytes_received)` with `bytes_received == -1`
        | .failed => Prog.halt .undefined
        | .received data =>
            let eol := data.findIdx? (· = lf)
            let toRead := match eol with
              | some i => i + 1
              | none => data.length
            let oss := oss ++ data.take toRead
            -- the bytes peeked at are taken out of the socket
            match ← recvRetry toRead false with
            | .waits => Prog.halt .blocks
            | _ => if eol.isSome then pure oss else readLineLoop maxSize fuel oss

/-- Enough iterations for everything that can still be received. -/
def readFuel (rx : Rx) : Nat := rx.events.length + rx.incoming.length + 1

/-- `connection::_read_line` -/
def readLine (maxSize : Int := 2048) : Conn σ Bytes := do
  let rx := (← Prog.get).1.rx
  let line ← readLineLoop maxSize (readFuel rx) []
  pure (rtrim line crlf)

/-! ## `_read_n` -/

/-- The loop of `_read_n`.  `bp` is the distance of the pointer from the buffer, which always equals
`bytes_read`; `buffer` is what has been stored before it.  A failing `recv` adds its `-1` to both. -/
def readNLoop (n : Int) : Nat → Int → Bytes → Conn σ Bytes
  | 0, _, _ => Prog.halt .blocks
  | fuel + 1, bp, buffer =>
      if bp = n then
        pure (ofCString buffer)
      else do
        match ← recvRetry (n - bp).toNat false with
        | .waits | .interrupted => Prog.halt .blocks
        | .closed => redisError (.connection (text "connection was closed"))
        | .failed => readNLoop n fuel (bp - 1) buffer.dropLast
        | .received data =>
            if bp < 0 then
              -- the bytes are stored in front of the buffer
              Prog.halt .undefined
            else
              readNLoop n fuel (bp + data.length) (buffer ++ data)

/-- `connection::_read_n`: allocates `n + 1` bytes, and makes the string from the C string. -/
def readN (n : Int) : Conn σ Bytes :=
  if longMax < n + 1 then
    -- `n + 1` overflows
    Prog.halt .undefined
  else if n + 1 < 0 then
    Prog.throw .badArrayNewLength
  else if n < 0 then
    -- `buffer[n] = '\0'` in front of an empty array
    Prog.halt .undefined
  else do
    let rx := (← Prog.get).1.rx
    readNLoop n (readFuel rx) 0 []

end Source

/-! ## The judgment -/

/-- The stream `bs` is still to be read on a working connection whose sending half is `tx`. -/
structure At (bs : Bytes) (tx : Tx) (s : Socket) : Prop where
  incoming : s.rx.incoming = bs
  healthy : s.rx.Healthy
  tx_eq : s.tx = tx

variable {σ τ α β : Type}

def Decodes (p : Conn σ α) (bs : Bytes) (out : σ) (o : Outcome Exn α) (left : Bytes) (out' : σ) :
    Prop :=
  ∀ tx, Yields (fun s => At bs tx s.1 ∧ s.2 = out) p o (fun s => At left tx s.1 ∧ s.2 = out')

namespace Decodes

variable {p : Conn σ α} {f : α → Conn σ β} {bs mid left : Bytes} {out out' out'' : σ}

theorem pure (a : α) : Decodes (Pure.pure a : Conn σ α) bs out (.returns a) bs out :=
  fun _ => Yields.pure a

theorem throw (e : Exn) : Decodes (Prog.throw e : Conn σ α) bs out (.halts (.throws e)) bs out :=
  fun _ => Yields.throw e

theorem halt (h : Halt Exn) : Decodes (Prog.halt h : Conn σ α) bs out (.halts h) bs out :=
  fun _ => Yields.halt h

theorem bind {a : α} {o : Outcome Exn β} (hp : Decodes p bs out (.returns a) mid out')
    (hf : Decodes (f a) mid out' o left out'') : Decodes (p >>= f) bs out o left out'' :=
  fun tx => (hp tx).bind (hf tx)

theorem bind_halts {h : Halt Exn} (hp : Decodes p bs out (.halts h) left out') :
    Decodes (p >>= f) bs out (.halts h) left out' :=
  fun tx => (hp tx).bind_halts

/-- Changing only the caller's container. -/
theorem modifyOut (g : σ → σ) :
    Decodes (Prog.modify fun s => (s.1, g s.2)) bs out (.returns ()) bs (g out) :=
  fun _ => Yields.modify fun _ hs => ⟨hs.1, congrArg g hs.2⟩

theorem withLocal {init final : τ} {q : Conn τ α} {a : α}
    (h : Decodes q bs init (.returns a) left final) :
    Decodes (Prog.withLocal init q) bs out (.returns (a, final)) left out :=
  fun tx => Yields.withLocal (h tx) out

theorem withLocal_halts {init final : τ} {q : Conn τ α} {r : Halt Exn}
    (h : Decodes q bs init (.halts r) left final) :
    Decodes (Prog.withLocal init q) bs out (.halts r) left out :=
  fun tx => Yields.withLocal_halts (h tx) out

end Decodes

/-! ## One `recv` of the programs -/

/-- `recv` hands out the first `k` bytes, `k` depending on the schedule. -/
theorem recvRetry_run (len : Nat) (hlen : 0 < len) {bs : Bytes} (hne : bs ≠ []) {tx : Tx}
    {s : Socket × σ} (hs : At bs tx s.1) (peek : Bool) :
    ∃ k s', 0 < k ∧ k ≤ len ∧ k ≤ bs.length ∧ min len s.1.rx.avail ≤ k ∧
      recvRetry len peek s = (.returns (.received (bs.take k)), s') ∧
      At (if peek then bs else bs.drop k) tx s'.1 ∧ s'.2 = s.2 ∧
      (peek = true → k ≤ s'.1.rx.avail) := by
  rcases hs with ⟨rfl, hhealthy, rfl⟩
  rcases Rx.recvRetry_spec hlen peek _ hhealthy hne (Nat.lt_succ_self _) with ⟨k, hk⟩
  refine ⟨k, (recvRetry len peek s).2, hk.pos, hk.le_len, hk.le_incoming, hk.arrived, ?_, ?_, rfl,
    hk.peeked⟩
  · rw [← hk.result]
    rfl
  · exact ⟨hk.incoming, hk.healthy, rfl⟩

/-- Bytes that have been peeked at can be taken at once, in any number. -/
theorem recvRetry_peeked {bs : Bytes} (hne : bs ≠ []) {tx : Tx} {s : Socket × σ}
    (hs : At bs tx s.1) :
    ∃ k s', 0 < k ∧ k ≤ bs.length ∧
      recvRetry 64 true s = (.returns (.received (bs.take k)), s') ∧
      ∀ n, 0 < n → n ≤ k → ∃ s'',
        recvRetry n false s' = (.returns (.received (bs.take n)), s'') ∧
        At (bs.drop n) tx s''.1 ∧ s''.2 = s.2 := by
  rcases recvRetry_run 64 (by decide) hne hs true with
    ⟨k, s', hpos, -, hle, -, hrun, hat, hout, hav⟩
  refine ⟨k, s', hpos, hle, hrun, fun n hn hnk => ?_⟩
  rcases recvRetry_run n hn hne hat false with ⟨j, s'', -, hjn, -, hjav, hrun', hat', hout', -⟩
  -- What was peeked at has arrived, so the second `recv` hands out no fewer than asked for.
  have hkav := hav rfl
  have hj : j = n := by omega
  subst hj
  exact ⟨s'', hrun', hat', hout'.trans hout⟩

/-- With nothing under way `recv` waits for ever. -/
theorem recvRetry_waits (len : Nat) (peek : Bool) {tx : Tx} {s : Socket × σ} (hs : At [] tx s.1) :
    ∃ s', recvRetry len peek s = (.returns .waits, s') ∧ At [] tx s'.1 ∧ s'.2 = s.2 := by
  rcases hs with ⟨hin, hhealthy, rfl⟩
  rcases Rx.recvRetry_waits len peek hhealthy hin (Nat.lt_succ_self _) with
    ⟨hrun, hhealthy', hin'⟩
  refine ⟨(recvRetry len peek s).2, ?_, ⟨hin', hhealthy', rfl⟩, rfl⟩
  rw [← hrun]
  rfl

/-! ## What `_read_line` reads -/

theorem findIdx?_lf_of_notMem {bs : Bytes} (h : lf ∉ bs) : bs.findIdx? (· = lf) = none := by
  simp only [List.findIdx?_eq_none_iff, decide_eq_false_iff_not]
  exact fun b hb hlf => h (hlf ▸ hb)

theorem findIdx?_lf_line {line : Bytes} (h : lf ∉ line) (rest : Bytes) :
    (line ++ lf :: rest).findIdx? (· = lf) = some line.length := by
  rw [List.findIdx?_append, findIdx?_lf_of_notMem h]
  simp [List.findIdx?_cons]

theorem readLineLoop_spec (maxSize : Int) (hmax : 0 < maxSize) (rest : Bytes) (out : σ) :
    ∀ {fuel : Nat} (line oss : Bytes), lf ∉ line → line.length < fuel →
      Decodes (readLineLoop maxSize fuel oss) (line ++ lf :: rest) out
        (.returns (oss ++ line ++ [lf])) rest out := by
  intro fuel
  -- `line` is what is still missing of the line; every chunk taken is at least one byte of it.
  induction fuel with
  | zero =>
      intro line oss _ hfuel
      exact absurd hfuel (Nat.not_lt_zero _)
  | succ fuel ih =>
      intro line oss hlf hfuel tx s hs
      rcases hs with ⟨hat, rfl⟩
      rcases recvRetry_peeked (by simp) hat with ⟨k, s', hpos, hle, hpeek, htake⟩
      simp only [readLineLoop, hmax, not_true_eq_false, if_false]
      rw [Prog.bind_returns hpeek]
      by_cases hk : k ≤ line.length
      · -- The chunk ends before the line does.
        have hdata : (line ++ lf :: rest).take k = line.take k := List.take_append_of_le_length hk
        have heol : (line.take k).findIdx? (· = lf) = none :=
          findIdx?_lf_of_notMem fun h => hlf (List.mem_of_mem_take h)
        have hlen : (line.take k).length = k := List.length_take_of_le hk
        rcases htake k hpos le_rfl with ⟨s'', hrun, hat'', hout⟩
        simp only [hdata, heol, hlen]
        rw [Prog.bind_returns hrun]
        have hdrop : (line ++ lf :: rest).drop k = line.drop k ++ lf :: rest :=
          List.drop_append_of_le_length hk
        rw [hdrop] at hat''
        have hrest := ih (line.drop k) (oss ++ line.take k)
          (fun h => hlf (List.mem_of_mem_drop h)) (by simp only [List.length_drop]; omega)
          tx s'' ⟨hat'', hout⟩
        simpa [List.take_take, hdata] using hrest
      · -- The chunk holds the end of the line.
        have hdata : (line ++ lf :: rest).take k =
            line ++ lf :: rest.take (k - line.length - 1) := by
          obtain ⟨j, rfl⟩ : ∃ j, k = line.length + (j + 1) := ⟨k - line.length - 1, by omega⟩
          simp [List.take_append]
        have heol : (line ++ lf :: rest.take (k - line.length - 1)).findIdx? (· = lf) =
            some line.length :=
          findIdx?_lf_line hlf _
        rcases htake (line.length + 1) (by omega) (by omega) with ⟨s'', hrun, hat'', hout⟩
        simp only [hdata, heol]
        rw [Prog.bind_returns hrun]
        have hdrop : (line ++ lf :: rest).drop (line.length + 1) = rest := by simp
        rw [hdrop] at hat''
        have htaken : (line ++ lf :: rest.take (k - line.length - 1)).take (line.length + 1) =
            line ++ [lf] := by
          simp [List.take_append]
        simpa [htaken] using ⟨hat'', hout⟩

/-- While no line feed comes `_read_line` goes on reading. -/
theorem readLineLoop_waits (maxSize : Int) (hmax : 0 < maxSize) (out : σ) :
    ∀ {fuel : Nat} (bs oss : Bytes), lf ∉ bs → bs.length < fuel →
      Decodes (readLineLoop maxSize fuel oss) bs out (.halts .blocks) [] out := by
  intro fuel
  -- Chunk after chunk is taken, until the stream is empty and `recv` waits.
  induction fuel with
  | zero =>
      intro bs oss _ hfuel
      exact absurd hfuel (Nat.not_lt_zero _)
  | succ fuel ih =>
      intro bs oss hlf hfuel tx s hs
      rcases hs with ⟨hat, rfl⟩
      simp only [readLineLoop, hmax, not_true_eq_false, if_false]
      by_cases hnil : bs = []
      · subst hnil
        rcases recvRetry_waits 64 true hat with ⟨s', hrun, hat', hout⟩
        rw [Prog.bind_returns hrun]
        exact ⟨rfl, hat', hout⟩
      · rcases recvRetry_peeked hnil hat with ⟨k, s', hpos, hle, hpeek, htake⟩
        rw [Prog.bind_returns hpeek]
        have heol : (bs.take k).findIdx? (· = lf) = none :=
          findIdx?_lf_of_notMem fun h => hlf (List.mem_of_mem_take h)
        have hlen : (bs.take k).length = k := List.length_take_of_le hle
        rcases htake k hpos le_rfl with ⟨s'', hrun, hat'', hout⟩
        simp only [heol, hlen]
        rw [Prog.bind_returns hrun]
        exact ih (bs.drop k) _ (fun h => hlf (List.mem_of_mem_drop h))
          (by simp only [List.length_drop]; omega) tx s'' ⟨hat'', hout⟩

theorem rtrim_append_lf (line : Bytes) : rtrim (line ++ [lf]) crlf = rtrim line crlf := by
  simp [rtrim, crlf]

/-- `_read_line` takes one line, whatever the arrivals and the limit. -/
theorem readLine_of_pos {maxSize : Int} (hmax : 0 < maxSize) {line : Bytes} (hlf : lf ∉ line)
    (rest : Bytes) (out : σ) :
    Decodes (readLine maxSize : Conn σ Bytes) (line ++ lf :: rest) out
      (.returns (rtrim line crlf)) rest out := by
  intro tx s hs
  have hfuel : line.length < readFuel s.1.rx := by
    simp only [readFuel, hs.1.incoming, List.length_append, List.length_cons]
    omega
  have hloop := readLineLoop_spec maxSize hmax rest out line [] hlf hfuel
  unfold readLine
  rw [Prog.get_bind, Prog.bind_returns ((hloop tx).run_eq hs)]
  simpa [rtrim_append_lf] using (hloop tx s hs).2

theorem readLine_spec {line : Bytes} (hlf : lf ∉ line) (rest : Bytes) (out : σ) :
    Decodes (readLine : Conn σ Bytes) (line ++ lf :: rest) out (.returns (rtrim line crlf)) rest
      out :=
  readLine_of_pos (by decide) hlf rest out

/-- A stream with a line feed in it is a line, its end and what follows. -/
theorem eq_line_append {bs : Bytes} (h : lf ∈ bs) :
    lf ∉ bs.takeWhile (· ≠ lf) ∧
      bs = bs.takeWhile (· ≠ lf) ++ lf :: (bs.dropWhile (· ≠ lf)).tail := by
  refine ⟨fun hmem => ?_, ?_⟩
  · simpa using List.mem_takeWhile_imp hmem
  · have hne : bs.dropWhile (· ≠ lf) ≠ [] := by
      intro hnil
      simpa using List.dropWhile_eq_nil_iff.1 hnil lf h
    have hhead : (bs.dropWhile (· ≠ lf)).head hne = lf := by
      simpa using List.head_dropWhile_not (fun b => decide (b ≠ lf)) hne
    have hcons : bs.dropWhile (· ≠ lf) = lf :: (bs.dropWhile (· ≠ lf)).tail := by
      conv_lhs => rw [← List.cons_head_tail hne, hhead]
    conv_lhs => rw [← List.takeWhile_append_dropWhile (p := (· ≠ lf)) (l := bs), hcons]

/-- How the stream is split between the calls of `recv` makes no difference to `_read_line`: it
returns the text before the first line feed, less the CRs and LFs at its end, and leaves what comes
after that line feed. -/
theorem line_whatever_split {maxSize : Int} (hmax : 0 < maxSize) {bs : Bytes} (h : lf ∈ bs) :
    (∀ out : σ, Decodes (readLine maxSize : Conn σ Bytes) bs out
      (.returns (rtrim (bs.takeWhile (· ≠ lf)) crlf)) (bs.dropWhile (· ≠ lf)).tail out) ∧
    ∀ s s' : Socket × σ, s.1.rx.Healthy → s'.1.rx.Healthy → s.1.rx.incoming = bs →
      s'.1.rx.incoming = bs →
        (readLine maxSize s).1 = (readLine maxSize s').1 ∧
          (readLine maxSize s).2.1.rx.incoming = (readLine maxSize s').2.1.rx.incoming := by
  have hdecodes : ∀ out : σ, Decodes (readLine maxSize : Conn σ Bytes) bs out
      (.returns (rtrim (bs.takeWhile (· ≠ lf)) crlf)) (bs.dropWhile (· ≠ lf)).tail out := by
    intro out
    rcases eq_line_append h with ⟨hlf, hbs⟩
    have hline := readLine_of_pos hmax hlf (bs.dropWhile (· ≠ lf)).tail out
    rwa [← hbs] at hline
  refine ⟨hdecodes, ?_⟩
  intro s s' hs hs' hbs hbs'
  rcases hdecodes s.2 s.1.tx s ⟨⟨hbs, hs, rfl⟩, rfl⟩ with ⟨hresult, hat, -⟩
  rcases hdecodes s'.2 s'.1.tx s' ⟨⟨hbs', hs', rfl⟩, rfl⟩ with ⟨hresult', hat', -⟩
  exact ⟨hresult.trans hresult'.symm, hat.incoming.trans hat'.incoming.symm⟩

/-- A status line and the byte after it, arriving as `events` say. -/
def statusArriving (events : List RecvEvent) : Socket × Unit :=
  ({ rx := { incoming := text "+OK" ++ crlf ++ text "$", avail := 0, events := events }
     tx := { written := [], events := [], sent := [], commandsIn := fun _ => 1, answers := [] } },
    ())

theorem line_whatever_split_threeChunks :
    (readLine 2048 (statusArriving [])).1 =
      (readLine 2048 (statusArriving
        [.arrives 1, .interrupted, .arrives 0, .arrives 3, .arrives 2])).1 :=
  ((line_whatever_split (by decide : (0 : Int) < 2048)
    (by decide : lf ∈ text "+OK" ++ crlf ++ text "$")).2 _ _ ⟨by simp [statusArriving], by decide⟩
      ⟨by simp [statusArriving, RecvEvent.Delivers], by decide⟩ rfl rfl).1

/-- On a stream without a line feed `_read_line` takes everything and waits. -/
theorem readLine_waits {bs : Bytes} (hlf : lf ∉ bs) (out : σ) :
    Decodes (readLine : Conn σ Bytes) bs out (.halts .blocks) [] out := by
  intro tx s hs
  have hfuel : bs.length < readFuel s.1.rx := by
    simp only [readFuel, hs.1.incoming]
    omega
  have hloop := readLineLoop_waits 2048 (by decide) out bs [] hlf hfuel
  unfold readLine
  rw [Prog.get_bind, Prog.bind_halts ((hloop tx).run_eq hs)]
  exact ⟨rfl, (hloop tx s hs).2⟩

/-! ## What `_read_n` reads -/

theorem readNLoop_spec (n : Int) (rest : Bytes) (out : σ) :
    ∀ {fuel : Nat} (bs : Bytes) (bp : Int) (buffer : Bytes), 0 ≤ bp → bp + bs.length = n →
      bs.length < fuel →
      Decodes (readNLoop n fuel bp buffer) (bs ++ rest) out (.returns (ofCString (buffer ++ bs)))
        rest out := by
  intro fuel
  -- `bs` is what is still missing of the block, and the buffer holds the `bp` bytes before it.
  induction fuel with
  | zero =>
      intro bs bp buffer _ _ hfuel
      exact absurd hfuel (Nat.not_lt_zero _)
  | succ fuel ih =>
      intro bs bp buffer hbp hn hfuel
      by_cases hnil : bs = []
      · subst hnil
        have hdone : bp = n := by simpa using hn
        simpa [readNLoop, hdone] using Decodes.pure (ofCString buffer)
      · have hpos : 0 < bs.length := List.length_pos_iff.2 hnil
        have hgo : bp ≠ n := by omega
        have hneg : ¬ bp < 0 := by omega
        -- `recv` is offered exactly the missing bytes, so it takes nothing of what follows.
        have hlen : (n - bp).toNat = bs.length := by omega
        intro tx s hs
        rcases hs with ⟨hat, rfl⟩
        rcases recvRetry_run bs.length hpos (by simp [hnil]) hat false with
          ⟨k, s', hkpos, hkle, -, -, hrun, hat', hout, -⟩
        have htake : (bs ++ rest).take k = bs.take k := List.take_append_of_le_length hkle
        have hdrop : (bs ++ rest).drop k = bs.drop k ++ rest := List.drop_append_of_le_length hkle
        have htaken : (bs.take k).length = k := List.length_take_of_le hkle
        simp only [Bool.false_eq_true, if_false, hdrop] at hat'
        simp only [readNLoop, hgo, if_false, hlen]
        rw [Prog.bind_returns hrun, htake]
        simp only [hneg, if_false, htaken]
        have hrest := ih (bs.drop k) (bp + k) (buffer ++ bs.take k) (by omega)
          (by simp only [List.length_drop]; omega) (by simp only [List.length_drop]; omega)
          tx s' ⟨hat', hout⟩
        simpa using hrest

/-- `_read_n` takes exactly `n` bytes, and returns them up to the first NUL. -/
theorem readN_spec {bs : Bytes} {n : Int} (hn : n = bs.length) (hmax : n < longMax) (rest : Bytes)
    (out : σ) :
    Decodes (readN n : Conn σ Bytes) (bs ++ rest) out (.returns (ofCString bs)) rest out := by
  intro tx s hs
  have h0 : ¬ longMax < n + 1 := by omega
  have h1 : ¬ n + 1 < 0 := by omega
  have h2 : ¬ n < 0 := by omega
  have hfuel : bs.length < readFuel s.1.rx := by
    simp only [readFuel, hs.1.incoming, List.length_append]
    omega
  have hloop := readNLoop_spec n rest out bs 0 [] le_rfl (by omega) hfuel tx s hs
  simp only [readN, h0, h1, h2, if_false]
  rw [Prog.get_bind]
  exact hloop

/-- A stream that is too short is taken whole, and `_read_n` waits. -/
theorem readNLoop_waits (n : Int) (out : σ) :
    ∀ {fuel : Nat} (bs : Bytes) (bp : Int) (buffer : Bytes), 0 ≤ bp → bp + bs.length < n →
      bs.length < fuel →
      Decodes (readNLoop n fuel bp buffer) bs out (.halts .blocks) [] out := by
  intro fuel
  induction fuel with
  | zero =>
      intro bs bp buffer _ _ hfuel
      exact absurd hfuel (Nat.not_lt_zero _)
  | succ fuel ih =>
      intro bs bp buffer hbp hn hfuel tx s hs
      rcases hs with ⟨hat, rfl⟩
      have hgo : bp ≠ n := by omega
      have hneg : ¬ bp < 0 := by omega
      simp only [readNLoop, hgo, if_false]
      by_cases hnil : bs = []
      · subst hnil
        rcases recvRetry_waits (n - bp).toNat false hat with ⟨s', hrun, hat', hout⟩
        rw [Prog.bind_returns hrun]
        exact ⟨rfl, hat', hout⟩
      · rcases recvRetry_run (n - bp).toNat (by omega) hnil hat false with
          ⟨k, s', hkpos, -, hkle, -, hrun, hat', hout, -⟩
        have htaken : (bs.take k).length = k := List.length_take_of_le hkle
        simp only [Bool.false_eq_true, if_false] at hat'
        rw [Prog.bind_returns hrun]
        simp only [hneg, if_false, htaken]
        exact ih (bs.drop k) (bp + k) _ (by omega) (by simp only [List.length_drop]; omega)
          (by simp only [List.length_drop]; omega) tx s' ⟨hat', hout⟩

theorem readN_waits {bs : Bytes} {n : Int} (hn : (bs.length : Int) < n) (hmax : n < longMax)
    (out : σ) : Decodes (readN n : Conn σ Bytes) bs out (.halts .blocks) [] out := by
  intro tx s hs
  have h0 : ¬ longMax < n + 1 := by omega
  have h1 : ¬ n + 1 < 0 := by omega
  have h2 : ¬ n < 0 := by omega
  have hfuel : bs.length < readFuel s.1.rx := by
    simp only [readFuel, hs.1.incoming]
    omega
  have hloop := readNLoop_waits n out bs 0 [] le_rfl (by omega) hfuel tx s hs
  simp only [readN, h0, h1, h2, if_false]
  rw [Prog.get_bind]
  exact hloop

end Redis
end CppPractice
