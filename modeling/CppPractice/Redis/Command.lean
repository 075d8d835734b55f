import CppPractice.Redis.Framing

/-!
# Command — the text of a command, and sending it

`redis::command` writes its arguments into a string stream, each after one blank, and its conversion
to `string` ends the line.  Nothing is quoted or counted, so the text determines the arguments only
as far as blanks and line ends do not occur in them.
-/

namespace CppPractice
namespace Redis

open Program

/-! ## `redis::command` -/

/-- `ostream << T` -/
class Streamable (T : Type) where
  put : T → Bytes

instance : Streamable Bytes := ⟨id⟩

instance : Streamable Int := ⟨intText⟩

instance (priority := low) {δ : Type} [DoubleFormat δ] : Streamable δ := ⟨DoubleFormat.put⟩

structure Command where
  buffer : Bytes
  deriving DecidableEq, Repr

/-- The constructor `command(const string &)`. -/
def command (cmd : Bytes) : Command := ⟨cmd⟩

/-- `operator<<(T const &)` -/
def Command.insert {T : Type} [Streamable T] (c : Command) (datum : T) : Command :=
  ⟨c.buffer ++ space :: Streamable.put datum⟩

/-- `operator<<(const vector<T> &)` -/
def Command.insertVector {T : Type} [Streamable T] (c : Command) (data : List T) : Command :=
  data.foldl Command.insert c

instance {T : Type} [Streamable T] : HShiftLeft Command T Command := ⟨Command.insert⟩

instance {T : Type} [Streamable T] : HShiftLeft Command (List T) Command := ⟨Command.insertVector⟩

/-- `operator string`: the line end is written into the buffer. -/
def Command.operatorString (c : Command) : Bytes × Command :=
  (c.buffer ++ crlf, ⟨c.buffer ++ crlf⟩)

/-- The text a command is sent as. -/
def Command.wire (c : Command) : Bytes := c.operatorString.1

/-! ## Argument lists -/

inductive Arg
  | string (s : Bytes)
  | integer (i : Int)
  | strings (v : List Bytes)
  | integers (v : List Int)
  deriving DecidableEq, Repr

def Arg.insertInto (c : Command) : Arg → Command
  | .string s => c <<< s
  | .integer i => c <<< i
  | .strings v => c <<< v
  | .integers v => c <<< v

def Command.ofArgs (name : Bytes) (args : List Arg) : Command :=
  args.foldl Arg.insertInto (command name)

/-- The texts an argument puts on the line. -/
def Arg.texts : Arg → List Bytes
  | .string s => [s]
  | .integer i => [intText i]
  | .strings v => v
  | .integers v => v.map intText

def argTexts (args : List Arg) : List Bytes := args.flatMap Arg.texts

/-- The texts as they stand in the line, each after its blank. -/
def spaced (ts : List Bytes) : Bytes := ts.flatMap (space :: ·)

theorem spaced_cons (t : Bytes) (ts : List Bytes) : spaced (t :: ts) = space :: (t ++ spaced ts) :=
  rfl

theorem buffer_insertVector {T : Type} [Streamable T] (c : Command) (data : List T) :
    (c.insertVector data).buffer = c.buffer ++ spaced (data.map Streamable.put) := by
  induction data generalizing c with
  | nil => simp [Command.insertVector, spaced]
  | cons datum data ih =>
      have hstep : c.insertVector (datum :: data) = (c.insert datum).insertVector data := rfl
      rw [hstep, ih]
      simp [Command.insert, spaced]

theorem buffer_insertInto (c : Command) (a : Arg) :
    (a.insertInto c).buffer = c.buffer ++ spaced a.texts := by
  cases a with
  | string s => exact buffer_insertVector c [s]
  | integer i => exact buffer_insertVector c [i]
  | strings v =>
      have hv := buffer_insertVector c v
      rwa [show v.map Streamable.put = v from List.map_id v] at hv
  | integers v => exact buffer_insertVector c v

theorem buffer_ofArgs (name : Bytes) (args : List Arg) :
    (Command.ofArgs name args).buffer = name ++ spaced (argTexts args) := by
  have hfold : ∀ c : Command, (args.foldl Arg.insertInto c).buffer =
      c.buffer ++ spaced (argTexts args) := by
    induction args with
    | nil => simp [argTexts, spaced]
    | cons a args ih =>
        intro c
        rw [List.foldl_cons, ih, buffer_insertInto]
        simp [argTexts, spaced]
  exact hfold (command name)

theorem wire_ofArgs (name : Bytes) (args : List Arg) :
    (Command.ofArgs name args).wire = name ++ spaced (argTexts args) ++ crlf := by
  rw [Command.wire, Command.operatorString, buffer_ofArgs]

/-! ## What the text determines -/

/-- Without blanks in them the texts can be read off the line. -/
theorem spaced_inj :
    ∀ {ts us : List Bytes}, (∀ t ∈ ts, space ∉ t) → (∀ u ∈ us, space ∉ u) →
      spaced ts = spaced us → ts = us := by
  intro ts
  -- Text by text: the first blank after a text is where the next one begins.
  induction ts with
  | nil =>
      intro us _ _ h
      cases us with
      | nil => rfl
      | cons u us => simp [spaced] at h
  | cons t ts ih =>
      intro us hts hus h
      cases us with
      | nil => simp [spaced] at h
      | cons u us =>
          rw [spaced_cons, spaced_cons, List.cons_inj_right] at h
          -- What follows a text is empty or begins with a blank.
          have hstop : ∀ vs : List Bytes, (spaced vs).takeWhile (· ≠ space) = [] := by
            intro vs
            cases vs <;> simp [spaced]
          have hword : ∀ (w : Bytes) (vs : List Bytes), space ∉ w →
              (w ++ spaced vs).takeWhile (· ≠ space) = w := by
            intro w vs hw
            rw [List.takeWhile_append_of_pos, hstop, List.append_nil]
            intro b hb
            simpa using fun hbs : b = space => hw (hbs ▸ hb)
          have htu : t = u := by
            rw [← hword t ts (hts t (by simp)), h, hword u us (hus u (by simp))]
          subst htu
          rw [ih (fun v hv => hts v (by simp [hv])) (fun v hv => hus v (by simp [hv]))
            (List.append_cancel_left h)]

/-- The text is one line: no CR or LF but those of the final CRLF. -/
def HasOneTerminator (wire : Bytes) : Prop := ∃ line, OneLine line ∧ wire = line ++ crlf

theorem oneLine_spaced {ts : List Bytes} : OneLine (spaced ts) ↔ ∀ t ∈ ts, OneLine t := by
  induction ts with
  | nil => simp [spaced, OneLine]
  | cons t ts ih =>
      have hblank : OneLine [space] := by decide
      rw [spaced_cons, ← List.singleton_append, oneLine_append, oneLine_append, ih]
      simp [hblank]

theorem hasOneTerminator_wire {name : Bytes} {args : List Arg} :
    HasOneTerminator (Command.ofArgs name args).wire ↔
      OneLine name ∧ ∀ t ∈ argTexts args, OneLine t := by
  rw [wire_ofArgs, ← oneLine_spaced, ← oneLine_append]
  constructor
  · rintro ⟨line, hline, hwire⟩
    -- Both sides end with the same CRLF, so the lines before it are the same too.
    rwa [List.append_cancel_right hwire]
  · intro h
    exact ⟨_, h, rfl⟩

/-! ## Reading a line -/

/-- The words of a line, which runs of blanks separate. -/
def inlineWords (line : Bytes) : List Bytes := (line.splitOn space).filter (· ≠ [])

/-- A reader of lines: it takes the bytes up to the first LF, drops the CR, and splits at the
blanks; the rest of the stream is left. -/
def readInline (stream : Bytes) : Option (List Bytes × Bytes) :=
  match stream.dropWhile (· ≠ lf) with
  | [] => none
  | _ :: rest => some (inlineWords (rtrim (stream.takeWhile (· ≠ lf)) [cr]), rest)

theorem inlineWords_append_spaced (line : Bytes) {ts : List Bytes}
    (hts : ∀ t ∈ ts, t ≠ [] ∧ space ∉ t) :
    inlineWords (line ++ spaced ts) = inlineWords line ++ ts := by
  induction ts generalizing line with
  | nil => simp [spaced]
  | cons t ts ih =>
      have hassoc : line ++ spaced (t :: ts) = (line ++ space :: t) ++ spaced ts := by
        simp [spaced]
      have hword : inlineWords (line ++ space :: t) = inlineWords line ++ [t] := by
        rcases hts t (by simp) with ⟨hne, hspace⟩
        rw [inlineWords, List.splitOn_append_cons_self, List.splitOn_eq_singleton hspace,
          List.filter_append]
        simp [inlineWords, hne]
      rw [hassoc, ih _ fun u hu => hts u (by simp [hu]), hword]
      simp

theorem takeWhile_line {line : Bytes} (h : lf ∉ line) (rest : Bytes) :
    (line ++ lf :: rest).takeWhile (· ≠ lf) = line ∧
      (line ++ lf :: rest).dropWhile (· ≠ lf) = lf :: rest := by
  have hall : ∀ b ∈ line, decide (b ≠ lf) = true := by
    intro b hb
    simpa using fun hlf : b = lf => h (hlf ▸ hb)
  rw [List.takeWhile_append_of_pos hall, List.dropWhile_append_of_pos hall]
  simp

theorem readInline_line {line : Bytes} (h : OneLine line) (rest : Bytes) :
    readInline (line ++ crlf ++ rest) = some (inlineWords line, rest) := by
  have hlf : lf ∉ line ++ [cr] := by simpa using ⟨h.2, by decide⟩
  have hstream : line ++ crlf ++ rest = (line ++ [cr]) ++ lf :: rest := by simp [crlf]
  have htrim : rtrim (line ++ [cr]) [cr] = line := by
    have hdrop : rtrim (line ++ [cr]) [cr] = rtrim line [cr] := by simp [rtrim]
    rw [hdrop, rtrim, List.rdropWhile_eq_self_iff]
    intro hne hlast
    have hcr : line.getLast hne = cr := by simpa using hlast
    exact h.1 (hcr ▸ List.getLast_mem hne)
  rcases takeWhile_line hlf rest with ⟨htake, hdropWhile⟩
  simp only [readInline, hstream, htake, hdropWhile, htrim]

/-- Commands of the same name whose texts have no blanks in them are told apart by their wires up to
the texts themselves; the wire is one line exactly when the name and the texts are; and a reader of
lines then finds the one command with its texts. -/
theorem command_wire_determines :
    (∀ (name : Bytes) (args args' : List Arg), (∀ t ∈ argTexts args, space ∉ t) →
      (∀ t ∈ argTexts args', space ∉ t) →
        ((Command.ofArgs name args).wire = (Command.ofArgs name args').wire ↔
          argTexts args = argTexts args')) ∧
    (∀ (name : Bytes) (args : List Arg), HasOneTerminator (Command.ofArgs name args).wire ↔
      OneLine name ∧ ∀ t ∈ argTexts args, OneLine t) ∧
    (∀ (name : Bytes) (args : List Arg) (rest : Bytes), OneLine name →
      (∀ t ∈ argTexts args, t ≠ [] ∧ space ∉ t ∧ OneLine t) →
        readInline ((Command.ofArgs name args).wire ++ rest) =
          some (inlineWords name ++ argTexts args, rest)) := by
  refine ⟨?_, ?_, ?_⟩
  · intro name args args' hargs hargs'
    simp only [wire_ofArgs]
    constructor
    · intro h
      have hspaced : spaced (argTexts args) = spaced (argTexts args') :=
        List.append_cancel_left (List.append_cancel_right h)
      exact spaced_inj hargs hargs' hspaced
    · intro h
      rw [h]
  · intro name args
    exact hasOneTerminator_wire
  · intro name args rest hname hargs
    have hline : OneLine (name ++ spaced (argTexts args)) :=
      oneLine_append.2 ⟨hname, oneLine_spaced.2 fun t ht => (hargs t ht).2.2⟩
    rw [wire_ofArgs, readInline_line hline, inlineWords_append_spaced _ fun t ht =>
      ⟨(hargs t ht).1, (hargs t ht).2.1⟩]

theorem command_wire_determines_get :
    readInline ((Command.ofArgs (text "GET") [.string (text "k"), .integer (-1)]).wire ++ []) =
      some (inlineWords (text "GET") ++ argTexts [.string (text "k"), .integer (-1)], []) :=
  command_wire_determines.2.2 (text "GET") [.string (text "k"), .integer (-1)] [] (by decide)
    (by decide)

/-- One argument with a blank in it reads like two, and one with a line end opens a second
command. -/
theorem command_wire_confused :
    (Command.ofArgs (text "RPUSH") [.string (text "l"), .string (text "a b")]).wire =
        (Command.ofArgs (text "RPUSH") [.string (text "l"), .string (text "a"),
          .string (text "b")]).wire ∧
      ¬ HasOneTerminator
        (Command.ofArgs (text "GET") [.string (text "x" ++ crlf ++ text "FLUSHALL")]).wire := by
  refine ⟨by decide, ?_⟩
  rw [hasOneTerminator_wire]
  decide

/-! ## `_send` -/

section Send

variable {σ : Type}

/-- The socket once the kernel has taken `bs`, with the results `es` to come. -/
def Socket.wrote (s : Socket) (bs : Bytes) (es : List WriteEvent) : Socket :=
  { s with tx := { s.tx with written := s.tx.written ++ bs, events := es } }

theorem Socket.wrote_wrote (s : Socket) (bs bs' : Bytes) (es es' : List WriteEvent) :
    (s.wrote bs es).wrote bs' es' = s.wrote (bs ++ bs') es' := by
  simp [Socket.wrote]

/-- What comes first when bytes are written: the last of them, a `write` that returns 0, or one that
fails. -/
inductive Stop
  | complete
  | zero
  | failed (strerror : Bytes)
  deriving DecidableEq, Repr

def stopOf : Nat → List WriteEvent → Stop
  | 0, _ => .complete
  | _ + 1, [] => .complete
  | k + 1, .accepts n :: es => stopOf (k + 1 - min (k + 1) (max 1 n)) es
  | _ + 1, .zero :: _ => .zero
  | _ + 1, .failed strerror :: _ => .failed strerror

/-- The result of `anetWrite` on `count`, of which `written` bytes have been accepted. -/
def Stop.result (count written : Int) : Stop → Except Bytes Int
  | .complete => .ok count
  | .zero => .ok written
  | .failed strerror => .error strerror

/-- The bytes that have been accepted: all of them or fewer. -/
def Stop.Accepted (k j : Nat) : Stop → Prop
  | .complete => j = k
  | .zero | .failed _ => j < k

/-- A `write` that returns 0, or one that fails, takes nothing, whatever it is offered. -/
theorem write_zero {s : Socket × σ} {es : List WriteEvent} (h : s.1.tx.events = .zero :: es) (buf : Bytes)
    (len : Nat) : write buf len s = (.returns (.wrote 0), (s.1.wrote [] es, s.2)) := by
  simp [write, Tx.write, h, Socket.wrote]

theorem write_failed {s : Socket × σ} {m : Bytes} {es : List WriteEvent}
    (h : s.1.tx.events = .failed m :: es) (buf : Bytes) (len : Nat) :
    write buf len s = (.returns (.failed m), (s.1.wrote [] es, s.2)) := by
  simp [write, Tx.write, h, Socket.wrote]

/-- What a `write` of `k + 1` bytes does: it takes some of them, returns 0, or fails. -/
inductive WriteStep (k : Nat) (buf : Bytes) (s : Socket × σ) : Prop
  | takes (n : Nat) (es : List WriteEvent) (hrest : es <:+ s.1.tx.events) (hpos : 0 < n)
      (hle : n ≤ k + 1)
      (hrun : write buf (k + 1) s = (.returns (.wrote n), (s.1.wrote (buf.take n) es, s.2)))
      (hstop : stopOf (k + 1) s.1.tx.events = stopOf (k + 1 - n) es)
  | zero (es : List WriteEvent) (hrest : es <:+ s.1.tx.events)
      (hrun : write buf (k + 1) s = (.returns (.wrote 0), (s.1.wrote [] es, s.2)))
      (hstop : stopOf (k + 1) s.1.tx.events = .zero)
  | failed (strerror : Bytes) (es : List WriteEvent) (hrest : es <:+ s.1.tx.events)
      (hrun : write buf (k + 1) s = (.returns (.failed strerror), (s.1.wrote [] es, s.2)))
      (hstop : stopOf (k + 1) s.1.tx.events = .failed strerror)

theorem write_step {k : Nat} {buf : Bytes} (hlength : k + 1 ≤ buf.length) (hmax : k + 1 ≤ writeMax)
    (s : Socket × σ) : WriteStep k buf s := by
  rcases s with ⟨⟨rx, ⟨written, events, sent, commandsIn, answers⟩⟩, out⟩
  cases events with
  | nil =>
      refine .takes (k + 1) [] List.nil_suffix (Nat.succ_pos k) le_rfl ?_ (by simp [stopOf])
      simp [write, Tx.write, Tx.takes, Socket.wrote, min_eq_left hmax, hlength]
  | cons e es =>
      have hrest : es <:+ e :: es := List.suffix_cons e es
      cases e with
      | accepts n =>
          refine .takes (min (k + 1) (max 1 n)) es hrest (by omega) (by omega) ?_ (by simp [stopOf])
          have hle : min (k + 1) (max 1 n) ≤ buf.length := (min_le_left _ _).trans hlength
          simp [write, Tx.write, Tx.takes, Socket.wrote, min_eq_left hmax, hle]
      | zero => exact .zero es hrest (write_zero rfl _ _) (by simp [stopOf])
      | failed m => exact .failed m es hrest (write_failed rfl _ _) (by simp [stopOf])

theorem stopOf_healthy (k : Nat) {es : List WriteEvent} (h : ∀ e ∈ es, e.Accepts) :
    stopOf k es = .complete := by
  induction es generalizing k with
  | nil => cases k <;> rfl
  | cons e es ih =>
      cases k with
      | zero => rfl
      | succ k =>
          cases e with
          | accepts n => exact ih _ fun e he => h e (List.mem_cons_of_mem _ he)
          | zero => exact absurd (h _ List.mem_cons_self) (by simp [WriteEvent.Accepts])
          | failed m => exact absurd (h _ List.mem_cons_self) (by simp [WriteEvent.Accepts])

theorem Stop.Accepted.add {k n j : Nat} (hle : n ≤ k) {stop : Stop}
    (h : stop.Accepted (k - n) j) : stop.Accepted k (n + j) := by
  cases stop <;> simp only [Stop.Accepted] at h ⊢ <;> omega

/-- With `k` bytes left of the count, the loop writes a first part of them, and how it ends is what
the results say. -/
theorem anetWriteLoop_run {count : Int} (hcount : count < 2 ^ 31) :
    ∀ (fuel k : Nat) (totlen : Int) (buf : Bytes) (s : Socket × σ), 0 ≤ totlen →
      count - totlen = k → k ≤ buf.length → k < fuel →
        ∃ j es, (stopOf k s.1.tx.events).Accepted k j ∧ es <:+ s.1.tx.events ∧
          anetWriteLoop count fuel totlen buf s =
            (.returns ((stopOf k s.1.tx.events).result count (totlen + j)),
              (s.1.wrote (buf.take j) es, s.2)) := by
  intro fuel
  -- `k` is what is left of the count; a `write` that goes on takes at least one byte of it.
  induction fuel with
  | zero =>
      intro k totlen buf s _ _ _ hfuel
      exact absurd hfuel (Nat.not_lt_zero _)
  | succ fuel ih =>
      intro k totlen buf s htot hk hle hfuel
      rcases Nat.eq_zero_or_pos k with rfl | hpos
      · have hdone : totlen = count := by omega
        refine ⟨0, s.1.tx.events, by simp [stopOf, Stop.Accepted], List.suffix_refl _, ?_⟩
        simp [anetWriteLoop, hdone, stopOf, Stop.result, Socket.wrote]
      · obtain ⟨k, rfl⟩ : ∃ m, k = m + 1 := ⟨k - 1, by omega⟩
        have hgo : totlen ≠ count := by omega
        have hint : ¬ count - totlen < -2 ^ 31 := by omega
        have hsize : sizeT (count - totlen) = k + 1 := by
          unfold sizeT
          omega
        have hmax : k + 1 ≤ writeMax := by
          unfold writeMax
          omega
        rw [anetWriteLoop, if_neg hgo, if_neg hint, hsize]
        rcases write_step hle hmax s with
          ⟨n, es, hrest, hnpos, hnle, hrun, hstop⟩ | ⟨es, hrest, hrun, hstop⟩ |
          ⟨m, es, hrest, hrun, hstop⟩
        · rcases ih (k + 1 - n) (totlen + n) (buf.drop n) (s.1.wrote (buf.take n) es, s.2) (by omega)
            (by omega) (by rw [List.length_drop]; omega) (by omega) with ⟨j, es', hj, hrest', hloop⟩
          have hbytes : buf.take n ++ (buf.drop n).take j = buf.take (n + j) := by
            rw [List.take_add]
          have htotal : totlen + (n : Int) + j = totlen + ((n + j : Nat) : Int) := by omega
          rw [Socket.wrote_wrote, hbytes, htotal] at hloop
          rw [Prog.bind_returns hrun, hstop]
          refine ⟨n + j, es', hj.add hnle, hrest'.trans hrest, ?_⟩
          cases n with
          | zero => exact absurd hnpos (Nat.lt_irrefl 0)
          | succ n => exact hloop
        · rw [Prog.bind_returns hrun, hstop]
          exact ⟨0, es, Nat.succ_pos k, hrest, by simp [Stop.result]⟩
        · rw [Prog.bind_returns hrun, hstop]
          exact ⟨0, es, Nat.succ_pos k, hrest, by simp [Stop.result]⟩

/-! With a negative count `write` is offered more than there is. -/

/-- What comes first then: a `write` that returns 0, or one that fails, before more than `room` bytes are
accepted.  With more of them `count - totlen` is no `int`. -/
def stopBeyond : Nat → List WriteEvent → Option Stop
  | _, [] => none
  | room, .accepts n :: es =>
      if min writeMax (max 1 n) ≤ room then stopBeyond (room - min writeMax (max 1 n)) es else none
  | _, .zero :: _ => some .zero
  | _, .failed strerror :: _ => some (.failed strerror)

theorem stopBeyond_healthy (room : Nat) {es : List WriteEvent} (h : ∀ e ∈ es, e.Accepts) :
    stopBeyond room es = none := by
  induction es generalizing room with
  | nil => rfl
  | cons e es ih =>
      cases e with
      | accepts n =>
          rw [stopBeyond]
          split
          · exact ih _ fun e he => h e (List.mem_cons_of_mem _ he)
          · rfl
      | zero => exact absurd (h _ List.mem_cons_self) (by simp [WriteEvent.Accepts])
      | failed m => exact absurd (h _ List.mem_cons_self) (by simp [WriteEvent.Accepts])

/-- Once more bytes are accepted than there is room for, the loop has no meaning. -/
theorem anetWriteLoop_overflow {count totlen : Int} (hover : count - totlen < -2 ^ 31) (fuel : Nat)
    (buf : Bytes) (s : Socket × σ) : (anetWriteLoop count fuel totlen buf s).1 = .halts .undefined := by
  cases fuel with
  | zero => rfl
  | succ fuel =>
      rw [anetWriteLoop, if_neg (by omega), if_pos hover]
      rfl

/-- A round of the loop in which `write` takes `k` bytes, if there are so many. -/
theorem anetWriteLoop_takes {count totlen : Int} {fuel k : Nat} {buf : Bytes} {es : List WriteEvent}
    {s : Socket × σ} (hgo : totlen ≠ count) (hint : ¬ count - totlen < -2 ^ 31) (hpos : 0 < k)
    (hwrite : s.1.tx.write buf (sizeT (count - totlen)) = s.1.tx.takes buf k es) :
    anetWriteLoop count (fuel + 1) totlen buf s =
      if k ≤ buf.length then
        anetWriteLoop count fuel (totlen + k) (buf.drop k) (s.1.wrote (buf.take k) es, s.2)
      else (.halts .undefined, s) := by
  rw [anetWriteLoop, if_neg hgo, if_neg hint]
  by_cases hk : k ≤ buf.length
  · have hrun : write buf (sizeT (count - totlen)) s =
        (.returns (.wrote k), (s.1.wrote (buf.take k) es, s.2)) := by
      simp [write, hwrite, Tx.takes, hk, Socket.wrote]
    rw [if_pos hk, Prog.bind_returns hrun]
    cases k with
    | zero => exact absurd hpos (Nat.lt_irrefl 0)
    | succ k => rfl
  · have hrun : write buf (sizeT (count - totlen)) s = (.halts .undefined, s) := by
      simp [write, hwrite, Tx.takes, hk]
    rw [if_neg hk, Prog.bind_halts hrun]

/-- How the loop ends: without a meaning, or as `stop` says and with `room` more bytes written at most. -/
def EndsBeyond (count totlen : Int) (fuel room : Nat) (buf : Bytes) (s : Socket × σ) : Option Stop → Prop
  | none => (anetWriteLoop count fuel totlen buf s).1 = .halts .undefined
  | some stop => ∃ j es, j ≤ room ∧ anetWriteLoop count fuel totlen buf s =
      (.returns (stop.result count (totlen + j)), (s.1.wrote (buf.take j) es, s.2))

/-- A round in which `write` takes `k` bytes, for which there is room. -/
theorem EndsBeyond.takes {count totlen : Int} {fuel room k : Nat} {buf : Bytes} {es : List WriteEvent}
    {s : Socket × σ} {stop : Option Stop} (hk : k ≤ room)
    (hround : anetWriteLoop count (fuel + 1) totlen buf s =
      anetWriteLoop count fuel (totlen + k) (buf.drop k) (s.1.wrote (buf.take k) es, s.2))
    (h : EndsBeyond count (totlen + k) fuel (room - k) (buf.drop k) (s.1.wrote (buf.take k) es, s.2) stop) :
    EndsBeyond count totlen (fuel + 1) room buf s stop := by
  cases stop with
  | none => exact (congrArg Prod.fst hround).trans h
  | some stop =>
      rcases h with ⟨j, es', hj, hloop⟩
      have htotal : totlen + (k : Int) + j = totlen + ((k + j : Nat) : Int) := by omega
      rw [Socket.wrote_wrote, ← List.take_add, htotal] at hloop
      exact ⟨k + j, es', by omega, hround.trans hloop⟩

/-- With a negative count the loop never comes to an end by itself: the results say how it ends. -/
theorem anetWriteLoop_beyond {count : Int} (hcount : count < 0) :
    ∀ (fuel room : Nat) (totlen : Int) (buf : Bytes) (s : Socket × σ), 0 ≤ totlen →
      count - totlen + 2 ^ 31 = room → room < buf.length → room < fuel →
        EndsBeyond count totlen fuel room buf s (stopBeyond room s.1.tx.events) := by
  intro fuel
  -- `room` is what may still be accepted; a `write` that goes on takes at least one byte of it.
  induction fuel with
  | zero =>
      intro room totlen buf s _ _ _ hfuel
      exact absurd hfuel (Nat.not_lt_zero _)
  | succ fuel ih =>
      intro room totlen buf s htot hroom hle hfuel
      have hgo : totlen ≠ count := by omega
      have hint : ¬ count - totlen < -2 ^ 31 := by omega
      have hsize : min (sizeT (count - totlen)) writeMax = writeMax := by
        unfold sizeT writeMax
        omega
      -- More bytes than there is room for are not there, or the next count is no `int`.
      have htakes : ∀ k es, 0 < k →
          s.1.tx.write buf (sizeT (count - totlen)) = s.1.tx.takes buf k es →
          EndsBeyond count totlen (fuel + 1) room buf s
            (if k ≤ room then stopBeyond (room - k) es else none) := by
        intro k es hpos hwrite
        have hround : anetWriteLoop count (fuel + 1) totlen buf s = _ :=
          anetWriteLoop_takes hgo hint hpos hwrite
        by_cases hk : k ≤ room
        · rw [if_pos (by omega)] at hround
          rw [if_pos hk]
          have hrest := ih (room - k) (totlen + k) (buf.drop k) (s.1.wrote (buf.take k) es, s.2) (by omega)
            (by omega) (by rw [List.length_drop]; omega) (by omega)
          exact hrest.takes hk hround
        · rw [if_neg hk]
          change (anetWriteLoop count (fuel + 1) totlen buf s).1 = .halts .undefined
          rw [hround]
          split
          · exact anetWriteLoop_overflow (by omega) fuel _ _
          · rfl
      rcases hevents : s.1.tx.events with _ | ⟨e, es⟩
      · have hwrite : s.1.tx.write buf (sizeT (count - totlen)) = s.1.tx.takes buf writeMax [] := by
          rw [Tx.write, hevents, hsize]
        have hend := htakes writeMax [] (by decide) hwrite
        have hnone : (if writeMax ≤ room then stopBeyond (room - writeMax) [] else none) = none := by
          split <;> rfl
        rw [hnone] at hend
        exact hend
      · cases e with
        | accepts n =>
            have hwrite : s.1.tx.write buf (sizeT (count - totlen)) =
                s.1.tx.takes buf (min writeMax (max 1 n)) es := by
              rw [Tx.write, hevents, hsize]
            have hpos : 0 < min writeMax (max 1 n) := by
              unfold writeMax
              omega
            exact htakes _ es hpos hwrite
        | zero =>
            refine ⟨0, es, Nat.zero_le _, ?_⟩
            rw [anetWriteLoop, if_neg hgo, if_neg hint, Prog.bind_returns (write_zero hevents _ _)]
            simp [Stop.result]
        | failed m =>
            refine ⟨0, es, Nat.zero_le _, ?_⟩
            rw [anetWriteLoop, if_neg hgo, if_neg hint, Prog.bind_returns (write_failed hevents _ _)]
            simp [Stop.result]

/-- The room that the first round of the loop has, the count being negative. -/
def roomOf (msg : Bytes) : Nat := (toInt msg.length + 2 ^ 31).toNat

theorem le_toInt (n : Nat) : -2 ^ 31 ≤ toInt n := by
  have h := Int.le_bmod (x := n) (m := 2 ^ 32) (by decide)
  unfold toInt
  omega

theorem msg_endsBeyond {msg : Bytes} (hneg : toInt msg.length < 0) (s : Socket × σ) :
    roomOf msg < msg.length ∧ EndsBeyond (toInt msg.length) 0 (msg.length + 1) (roomOf msg) msg s
      (stopBeyond (roomOf msg) s.1.tx.events) := by
  have hlow := le_toInt msg.length
  have hlong : 2 ^ 31 ≤ msg.length := by
    by_contra hshort
    rw [toInt_of_lt (Nat.lt_of_not_le hshort)] at hneg
    omega
  have hroom : roomOf msg < msg.length := by
    unfold roomOf
    omega
  refine ⟨hroom, anetWriteLoop_beyond hneg _ _ 0 msg s le_rfl ?_ hroom (by omega)⟩
  unfold roomOf
  omega

theorem anetWrite_negative {msg : Bytes} (hneg : toInt msg.length < 0) {s : Socket × σ}
    (h : s.1.tx.Healthy) : anetWrite msg (toInt msg.length) s = (.halts .undefined, s) := by
  have hend := (msg_endsBeyond hneg s).2
  rw [stopBeyond_healthy _ h] at hend
  exact Prog.meaningful_undefined hend

theorem anetWrite_spec {msg : Bytes} {count : Int} {k : Nat} (hcount : count < 2 ^ 31) (hk : count = k)
    (hle : k ≤ msg.length) {s : Socket × σ} (h : s.1.tx.Healthy) :
    ∃ es, (∀ e ∈ es, e.Accepts) ∧
      anetWrite msg count s = (.returns (.ok count), (s.1.wrote (msg.take k) es, s.2)) := by
  rcases anetWriteLoop_run hcount (msg.length + 1) k 0 msg s le_rfl (by omega) hle (by omega) with
    ⟨j, es, hj, hrest, hloop⟩
  rw [stopOf_healthy k h] at hj hloop
  obtain rfl : j = k := hj
  exact ⟨es, fun e he => h e (hrest.subset he), Prog.meaningful_returns hloop⟩

/-- The size of the message is an `int`, as `anetWrite` takes it. -/
structure SizeFitsInt (msg : Bytes) : Prop where
  lt : msg.length < 2 ^ 31

/-- The socket once `_send` has been given `msg`. -/
def Socket.logged (s : Socket) (msg : Bytes) : Socket :=
  { s with tx := { s.tx with sent := s.tx.sent ++ [msg] } }

theorem send_ok {msg : Bytes} {n : Int} {s s' : Socket × σ}
    (h : anetWrite msg (toInt msg.length) (s.1.logged msg, s.2) = (.returns (.ok n), s')) :
    send msg s = serverReacts s.1.tx.written msg s' := by
  have hlog : logSent msg s = (.returns (), (s.1.logged msg, s.2)) := rfl
  unfold send
  rw [Prog.bind_returns hlog, Prog.get_bind, Prog.bind_returns h]
  rfl

theorem send_halts {msg : Bytes} {r : Halt Exn} {s s' : Socket × σ}
    (h : anetWrite msg (toInt msg.length) (s.1.logged msg, s.2) = (.halts r, s')) :
    send msg s = (.halts r, s') := by
  have hlog : logSent msg s = (.returns (), (s.1.logged msg, s.2)) := rfl
  unfold send
  rw [Prog.bind_returns hlog, Prog.get_bind, Prog.bind_halts h]

/-- A message whose length is an `int` is sent completely, and the server answers it. -/
theorem send_spec {msg : Bytes} (hlen : SizeFitsInt msg) {s : Socket × σ}
    (h : s.1.tx.Healthy) :
    ∃ es, (∀ e ∈ es, e.Accepts) ∧
      send msg s = (.returns (), (((s.1.logged msg).wrote msg es).serve msg, s.2)) := by
  rcases anetWrite_spec (s := (s.1.logged msg, s.2)) (toInt_lt _) (toInt_of_lt hlen.lt) le_rfl h with
    ⟨es, hes, hwrite⟩
  rw [List.take_length] at hwrite
  refine ⟨es, hes, ?_⟩
  rw [send_ok hwrite]
  simp [serverReacts, Prog.modify, Socket.wrote, Socket.logged]

/-- Of a longer message the server gets a part at most, and does not answer. -/
theorem send_truncated {msg : Bytes} (hlen : ¬ SizeFitsInt msg) {s : Socket × σ}
    (h : s.1.tx.Healthy) :
    (∃ s', send msg s = (.halts .undefined, s')) ∨
      ∃ k es, send msg s = (.returns (), ((s.1.logged msg).wrote (msg.take k) es, s.2)) := by
  have hrange := toInt_lt msg.length
  have hlong : 2 ^ 31 ≤ msg.length := not_lt.1 fun hlt => hlen ⟨hlt⟩
  rcases lt_or_ge (toInt msg.length) 0 with hneg | hnonneg
  -- As a `size_t` the negative count goes past the end of the message.
  · left
    exact ⟨_, send_halts (anetWrite_negative (s := (s.1.logged msg, s.2)) hneg h)⟩
  -- Otherwise a proper part is written, which the server takes for no command.
  · right
    have hle : (toInt msg.length).toNat ≤ msg.length := by omega
    rcases anetWrite_spec (s := (s.1.logged msg, s.2)) hrange (Int.toNat_of_nonneg hnonneg).symm hle h with
      ⟨es, -, hwrite⟩
    refine ⟨(toInt msg.length).toNat, es, ?_⟩
    have hpart : msg.take (toInt msg.length).toNat ≠ msg := by
      intro heq
      have hlength := congrArg List.length heq
      rw [List.length_take] at hlength
      omega
    rw [send_ok hwrite]
    simp [serverReacts, Prog.modify, Socket.wrote, Socket.logged, hpart]

end Send

end Redis
end CppPractice
