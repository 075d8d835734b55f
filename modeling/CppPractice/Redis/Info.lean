import CppPractice.Redis.Numbers
import CppPractice.Redis.Lockstep

/-!
# Info — what `info` makes of the server's text

`info` splits the text into lines and each line at its colons, and hands on what a line holds while
it goes.  `lineEffect` is what one line leads to; a run over the lines is then a list of assignments
up to the first line that throws (`infoLines_run`).
-/

namespace CppPractice
namespace Redis

open Program

def colon : UInt8 := 58

/-! ## One line -/

inductive LineEffect
  | skips
  | assigns (key value : Bytes)
  | throws (e : Exn)

def lineEffect (sectionName line : Bytes) : LineEffect :=
  if line.head? = some hash then
    if sectionName = [] then
      .skips
    else if line.length < 2 then
      .throws .outOfRange
    else if (line.drop 2).take sectionName.length ≠ sectionName then
      .throws (.redis (.protocol (text "unexpected section name for info")))
    else
      .skips
  else if line = [] then
    .skips
  else
    match split line (text ":") [] with
    | some [key, value] => .assigns key value
    | _ => .throws (.redis (.protocol (line ++ text "unexpected line format for info")))

def LineEffect.prog : LineEffect → Conn StringMap Unit
  | .skips => pure ()
  | .assigns key value => Prog.modify fun s => (s.1, Function.update s.2 key (some value))
  | .throws e => Prog.throw e

theorem infoLine_eq (sectionName line : Bytes) :
    infoLine sectionName line = (lineEffect sectionName line).prog := by
  unfold infoLine lineEffect
  split
  · split
    · rfl
    · split
      · rfl
      · split <;> rfl
  · split
    · rfl
    · have hsome : (split line (text ":") []).isSome = true := split_isSome line (by decide) []
      rcases hparts : split line (text ":") [] with _ | parts
      · rw [hparts] at hsome
        exact absurd hsome (by decide)
      · match parts with
        | [] => rfl
        | [_] => rfl
        | [_, _] => rfl
        | _ :: _ :: _ :: _ => rfl

/-- What `info` wants of a line: of a header the name of its section, of any other line exactly one
colon, unless it is blank. -/
def LineAccepted (sectionName line : Bytes) : Prop :=
  if line.head? = some hash then (line.drop 2).take sectionName.length = sectionName
  else line = [] ∨ line.count colon = 1

/-- The exception of a line. -/
def LineEffect.exn? : LineEffect → Option Exn
  | .throws e => some e
  | _ => none

theorem split_colon {line : Bytes} :
    (∃ key value, split line (text ":") [] = some [key, value]) ↔ line.count colon = 1 := by
  have hcolon : text ":" = [colon] := rfl
  rw [hcolon]
  constructor
  · rintro ⟨key, value, h⟩
    have hlength := split_length h
    simpa using hlength.symm
  · intro hcount
    rcases Option.isSome_iff_exists.1 (split_isSome line (by decide : [colon] ≠ []) []) with
      ⟨parts, hparts⟩
    have hlength := split_length hparts
    rw [hcount] at hlength
    match parts, hlength with
    | [key, value], _ => exact ⟨key, value, hparts⟩

theorem lineAccepted_iff (sectionName line : Bytes) :
    LineAccepted sectionName line ↔ (lineEffect sectionName line).exn? = none := by
  unfold LineAccepted lineEffect
  by_cases hhead : line.head? = some hash
  · simp only [hhead, if_true]
    by_cases hsection : sectionName = []
    · simp [hsection, LineEffect.exn?]
    · simp only [hsection, if_false]
      by_cases hshort : line.length < 2
      -- `substr` throws; a header this short does not have the name either.
      · have hnil : line.drop 2 = [] := List.drop_eq_nil_of_le (by omega)
        simp [hshort, hnil, LineEffect.exn?, eq_comm, hsection]
      · by_cases hname : (line.drop 2).take sectionName.length = sectionName <;>
          simp [hshort, hname, LineEffect.exn?]
  · simp only [hhead, if_false]
    by_cases hnil : line = []
    · simp [hnil, LineEffect.exn?]
    · simp only [hnil, if_false, false_or]
      rw [← split_colon]
      split
      · rename_i key value hparts
        simp [hparts, LineEffect.exn?]
      · rename_i hparts
        simp only [LineEffect.exn?, reduceCtorEq, iff_false]
        rintro ⟨key, value, h⟩
        exact hparts key value h

/-! ## The lines of a text -/

/-- What the lines assign, up to the first that throws. -/
def assigned (sectionName : Bytes) : List Bytes → List (Bytes × Bytes)
  | [] => []
  | line :: lines =>
      match lineEffect sectionName line with
      | .skips => assigned sectionName lines
      | .assigns key value => (key, value) :: assigned sectionName lines
      | .throws _ => []

/-- The exception of the first line that throws. -/
def failure (sectionName : Bytes) (lines : List Bytes) : Option Exn :=
  lines.findSome? fun line => (lineEffect sectionName line).exn?

def assignAll (out : StringMap) (kvs : List (Bytes × Bytes)) : StringMap :=
  kvs.foldl (fun out kv => Function.update out kv.1 (some kv.2)) out

/-- The outcome of a loop that an exception may have ended. -/
def loopOutcome : Option Exn → Outcome Exn Unit
  | none => .returns ()
  | some e => .halts (.throws e)

theorem infoLines_run (sectionName : Bytes) (s : Socket) :
    ∀ (lines : List Bytes) (out : StringMap),
      infoLines sectionName lines (s, out) = (loopOutcome (failure sectionName lines),
        (s, assignAll out (assigned sectionName lines))) := by
  intro lines
  -- Over the lines with the map so far; a line that throws leaves that map as it is.
  induction lines with
  | nil =>
      intro out
      rfl
  | cons line lines ih =>
      intro out
      rw [infoLines, infoLine_eq]
      cases heffect : lineEffect sectionName line with
      | skips =>
          have hskip : LineEffect.skips.prog (s, out) = (.returns (), (s, out)) := rfl
          simp only [failure, assigned, List.findSome?_cons, heffect, LineEffect.exn?]
          rw [Prog.bind_returns hskip]
          exact ih out
      | assigns key value =>
          have hassign : (LineEffect.assigns key value).prog (s, out) =
              (.returns (), (s, Function.update out key (some value))) := rfl
          simp only [failure, assigned, List.findSome?_cons, heffect, LineEffect.exn?]
          rw [Prog.bind_returns hassign]
          exact ih (Function.update out key (some value))
      | throws e =>
          have hthrow : (LineEffect.throws e).prog (s, out) = (.halts (.throws e), (s, out)) := rfl
          simp only [failure, assigned, List.findSome?_cons, heffect, LineEffect.exn?]
          rw [Prog.bind_halts hthrow]
          rfl

/-- The lines `info` finds in a text. -/
def textLines (t : Bytes) : List Bytes := (split t crlf []).getD []

/-- What `info` throws for a text. -/
def textFailure (sectionName t : Bytes) : Option Exn :=
  if t = [] then some (.redis (.protocol (text "empty")))
  else failure sectionName (textLines t)

/-- What `info` assigns for a text. -/
def textAssigned (sectionName t : Bytes) : List (Bytes × Bytes) :=
  if t = [] then [] else assigned sectionName (textLines t)

theorem splitLoop_ne_nil {delim : Bytes} :
    ∀ {fuel : Nat} {str : Bytes} {items parts : List Bytes},
      splitLoop delim fuel str items = some parts → parts ≠ [] := by
  intro fuel
  induction fuel with
  | zero =>
      intro str items parts h
      exact absurd h (by simp [splitLoop])
  | succ fuel ih =>
      intro str items parts h
      unfold splitLoop at h
      cases hfind : find delim str with
      | some pos =>
          rw [hfind] at h
          exact ih h
      | none =>
          rw [hfind] at h
          cases h
          simp

/-- The part of `info` after the text has come. -/
def infoResponse (sectionName response : Bytes) : Conn StringMap Unit :=
  if response = [] then
    protocolError "empty"
  else
    match split response crlf [] with
    | none => Prog.halt .blocks
    | some [] => protocolError "empty line for info"
    | some lines => infoLines sectionName lines

theorem recvInfo_eq (sectionName : Bytes) :
    recvInfo sectionName = recvBulkReply >>= infoResponse sectionName := rfl

theorem infoResponse_run (sectionName t : Bytes) (s : Socket) (out : StringMap) :
    infoResponse sectionName t (s, out) = (loopOutcome (textFailure sectionName t),
      (s, assignAll out (textAssigned sectionName t))) := by
  unfold infoResponse textFailure textAssigned textLines
  by_cases hnil : t = []
  · simp only [hnil, if_true]
    rfl
  · simp only [hnil, if_false]
    rcases Option.isSome_iff_exists.1 (split_isSome t (by decide : crlf ≠ []) []) with
      ⟨lines, hlines⟩
    rw [hlines]
    -- `split` gives at least one item, so the error for an empty list is never thrown.
    match lines, splitLoop_ne_nil hlines with
    | line :: lines, _ => exact infoLines_run sectionName s (line :: lines) out

theorem recvInfo_text (sectionName : Bytes) {t : Bytes} (hnul : nul ∉ t)
    (hfits : (t.length : Int) + 2 < longMax) (rest : Bytes) (out : StringMap) :
    Decodes (recvInfo sectionName) ((Reply.bulk (some t)).encode ++ rest) out
      (loopOutcome (textFailure sectionName t)) rest
      (assignAll out (textAssigned sectionName t)) := by
  have hbulk := recvBulkReply_some hfits rest out
  rw [bulkOutcome, if_pos hnul] at hbulk
  rw [recvInfo_eq]
  refine hbulk.bind ?_
  rintro tx ⟨s, out⟩ ⟨hs, rfl⟩
  rw [infoResponse_run]
  exact ⟨rfl, hs, rfl⟩

theorem recvInfo_halts (sectionName : Bytes) {bs left : Bytes} {out out' : StringMap}
    {h : Halt Exn} (hbulk : Decodes recvBulkReply bs out (.halts h) left out') :
    Decodes (recvInfo sectionName) bs out (.halts h) left out' := by
  rw [recvInfo_eq]
  exact hbulk.bind_halts

theorem bulkOutcome_nul {t : Bytes} (h : nul ∈ t) : ∃ e, bulkOutcome t = throwsRedis e := by
  unfold bulkOutcome
  rw [if_neg (not_not.2 h)]
  split
  · exact ⟨_, rfl⟩
  · exact ⟨_, rfl⟩

/-- A text with a NUL in it is refused by `_recv_bulk_reply()`. -/
theorem recvInfo_nul (sectionName : Bytes) {t : Bytes} (hnul : nul ∈ t)
    (hfits : (t.length : Int) + 2 < longMax) (rest : Bytes) (out : StringMap) :
    ∃ e, Decodes (recvInfo sectionName) ((Reply.bulk (some t)).encode ++ rest) out (throwsRedis e)
      rest out := by
  rcases bulkOutcome_nul hnul with ⟨e, he⟩
  have hbulk := recvBulkReply_some hfits rest out
  rw [he] at hbulk
  exact ⟨e, recvInfo_halts sectionName hbulk⟩

/-! ### When the loop throws -/

theorem lineEffect_exn {sectionName line : Bytes} {e : Exn}
    (h : (lineEffect sectionName line).exn? = some e) :
    (∃ e', e = .redis e') ∨ e = .outOfRange ∧ sectionName ≠ [] ∧ line = [hash] := by
  unfold lineEffect at h
  split at h
  · rename_i hhead
    split at h
    · cases h
    · rename_i hsection
      split at h
      -- A line that starts with `#` and is shorter than two characters is `#` itself.
      · rename_i hshort
        cases h
        rcases List.head?_eq_some_iff.1 hhead with ⟨rest, rfl⟩
        have hrest : rest = [] := by
          rw [List.length_cons] at hshort
          exact List.length_eq_zero_iff.1 (by omega)
        exact Or.inr ⟨rfl, hsection, by rw [hrest]⟩
      · split at h <;> cases h
        exact Or.inl ⟨_, rfl⟩
  · split at h
    · cases h
    · split at h <;> cases h
      exact Or.inl ⟨_, rfl⟩

theorem lineEffect_bareHeader {sectionName : Bytes} (h : sectionName ≠ []) :
    (lineEffect sectionName [hash]).exn? = some .outOfRange := by
  simp [lineEffect, h, LineEffect.exn?]

theorem failure_eq_none_iff {sectionName : Bytes} {lines : List Bytes} :
    failure sectionName lines = none ↔ ∀ line ∈ lines, LineAccepted sectionName line := by
  simp only [failure, List.findSome?_eq_none_iff, lineAccepted_iff]

/-- A header line of one character comes before any line that is not accepted. -/
def BareHeader (sectionName t : Bytes) : Prop :=
  sectionName ≠ [] ∧ nul ∉ t ∧ ∃ before after, textLines t = before ++ [hash] :: after ∧
    ∀ line ∈ before, LineAccepted sectionName line

theorem textLines_nil : textLines [] = [[]] := rfl

/-- Apart from the redis errors there is only the exception of a bare header. -/
theorem textFailure_cases (sectionName : Bytes) {t : Bytes} (hnul : nul ∉ t) :
    BareHeader sectionName t ∧ textFailure sectionName t = some .outOfRange ∨
      ¬ BareHeader sectionName t ∧ Orderly (loopOutcome (textFailure sectionName t)) := by
  unfold textFailure
  by_cases hnil : t = []
  · right
    subst hnil
    refine ⟨?_, trivial⟩
    rintro ⟨-, -, before, after, hlines, -⟩
    rw [textLines_nil] at hlines
    rcases List.append_eq_singleton_iff.1 hlines.symm with ⟨-, h⟩ | ⟨-, h⟩
    · exact absurd (List.cons.inj h).1 (by simp)
    · exact absurd h (by simp)
  · simp only [hnil, if_false]
    cases hfail : failure sectionName (textLines t) with
    | none =>
        right
        refine ⟨?_, trivial⟩
        rintro ⟨hsection, -, before, after, hlines, -⟩
        have hnone := (lineAccepted_iff sectionName [hash]).1
          (failure_eq_none_iff.1 hfail [hash] (by simp [hlines]))
        rw [lineEffect_bareHeader hsection] at hnone
        exact absurd hnone (by simp)
    | some e =>
        rcases List.findSome?_eq_some_iff.1 hfail with ⟨before, line, after, hlines, hexn, hbefore⟩
        rcases lineEffect_exn hexn with ⟨e', rfl⟩ | ⟨rfl, hsection, rfl⟩
        · right
          refine ⟨?_, trivial⟩
          rintro ⟨hsection, -, before', after', hlines', hbefore'⟩
          -- The bare header would throw first, and it throws something else.
          have hfail' : failure sectionName (textLines t) = some .outOfRange :=
            List.findSome?_eq_some_iff.2 ⟨before', [hash], after', hlines',
              lineEffect_bareHeader hsection,
              fun x hx => (lineAccepted_iff sectionName x).1 (hbefore' x hx)⟩
          rw [hfail] at hfail'
          exact absurd hfail' (by simp)
        · left
          exact ⟨⟨hsection, hnul, before, after, hlines,
            fun x hx => (lineAccepted_iff sectionName x).2 (hbefore x hx)⟩, rfl⟩

/-! ## The whole call -/

/-- An idle connection whose server takes `wire` as one command and answers it with `reply`. -/
structure Socket.Answering (s : Socket) (wire reply : Bytes) : Prop where
  idle : s.Idle
  one : s.tx.commandsIn wire = 1
  first : ∃ more, s.tx.answers = reply :: more

/-- A request runs as its decoder does on the reply. -/
theorem request_decodes {σ α : Type} {cmd : Command} {recv : Conn σ α} {s : Socket}
    {reply left : Bytes} {out out' : σ} {o : Outcome Exn α} (hfits : SizeFitsInt cmd.wire)
    (hs : s.Answering cmd.wire reply) (h : Decodes recv reply out o left out') :
    ((Body.request cmd recv).run (s, out)).1 = o ∧
      ((Body.request cmd recv).run (s, out)).2.2 = out' := by
  rcases hs.first with ⟨more, hmore⟩
  rcases send_answered hfits hs.idle hs.one hmore out with ⟨s', hsend, hat, -⟩
  have hrun : (Body.request cmd recv).run (s, out) = recv (s', out) := Prog.bind_returns hsend
  rw [hrun]
  exact ⟨(h s'.tx (s', out) ⟨hat, rfl⟩).1, (h s'.tx (s', out) ⟨hat, rfl⟩).2.2⟩

/-- With a command that is too long no answer comes. -/
theorem request_long {σ α : Type} {cmd : Command} {recv : Conn σ α} (hrecv : Waits recv)
    (hlen : ¬ SizeFitsInt cmd.wire) {s : Socket} (hidle : s.Idle) (out : σ) :
    ¬ Ends ((Body.request cmd recv).run (s, out)).1 := by
  intro hends
  rcases long_not_ends hlen hidle hends with ⟨s', -, -, hat, hrun⟩
  have hblocks := (hrecv out s'.tx (s', out) ⟨hat, rfl⟩).1
  change Ends ((send cmd.wire >>= fun _ => recv) (s, out)).1 at hends
  rw [hrun, hblocks] at hends
  exact hends

/-- What `info` sends. -/
def infoWire (sectionName : Bytes) : Bytes := (command (text "INFO") <<< sectionName).wire

/-- `info` can send the command, the text has no length for which `_recv_bulk_reply()` overflows,
and no bare header is looked at. -/
def EndsOrderly (sectionName t : Bytes) : Prop :=
  SizeFitsInt (infoWire sectionName) ∧
    (longMax < (t.length : Int) ∨
      (t.length : Int) + 2 < longMax ∧ ¬ BareHeader sectionName t)

theorem infoSection_orderly_iff {sectionName t : Bytes} {s : Socket}
    (hs : s.Answering (infoWire sectionName) (Reply.bulk (some t)).encode) (out : StringMap) :
    Orderly ((Connection.infoSection sectionName).run (s, out)).1 ↔ EndsOrderly sectionName t := by
  unfold EndsOrderly
  by_cases hfits : SizeFitsInt (infoWire sectionName)
  · simp only [hfits, true_and]
    have hrun : ∀ {o : Outcome Exn Unit} {left : Bytes} {out' : StringMap},
        Decodes (recvInfo sectionName) ((Reply.bulk (some t)).encode ++ []) out o left out' →
          ((Connection.infoSection sectionName).run (s, out)).1 = o := by
      intro o left out' h
      rw [List.append_nil] at h
      exact (request_decodes hfits hs h).1
    rcases lt_or_ge longMax (t.length : Int) with hlarge | hle
    · -- The length is no `long`, and the reply is refused as a whole.
      rw [hrun (recvInfo_halts sectionName (recvBulkReply_large hlarge [] out))]
      exact iff_of_true trivial (Or.inl hlarge)
    · simp only [not_lt.2 hle, false_or]
      by_cases hover : (t.length : Int) + 2 < longMax
      · simp only [hover, true_and]
        by_cases hnul : nul ∈ t
        · rcases recvInfo_nul sectionName hnul hover [] out with ⟨e, he⟩
          rw [hrun he]
          exact iff_of_true trivial fun h => h.2.1 hnul
        · rw [hrun (recvInfo_text sectionName hnul hover [] out)]
          rcases textFailure_cases sectionName hnul with
            ⟨hbare, hfail⟩ | ⟨hbare, horderly⟩
          · rw [hfail]
            exact iff_of_false (fun h => h) (not_not.2 hbare)
          · exact iff_of_true horderly hbare
      · rw [hrun (recvInfo_halts sectionName (recvBulkReply_overflow hle (not_lt.1 hover) [] out))]
        exact iff_of_false (fun h => h) fun h => hover h.1
  · refine iff_of_false (fun h => ?_) fun h => hfits h.1
    exact request_long (recvInfo_receives sectionName).waits hfits hs.idle out h.ends

/-! ## What the server prints -/

/-- A line of the server's text. -/
inductive InfoLine
  | header (title : Bytes)
  | blank
  | entry (key value : Bytes)
  deriving DecidableEq, Repr

def InfoLine.text : InfoLine → Bytes
  | .header title => hash :: title
  | .blank => []
  | .entry key value => key ++ colon :: value

/-- A key is not empty and has no colon, CR or LF in it and no `#` before it; a title and a value
have no CR or LF. -/
def InfoLine.Proper : InfoLine → Prop
  | .header title => OneLine title
  | .blank => True
  | .entry key value => (key ≠ [] ∧ colon ∉ key ∧ OneLine key ∧ key.head? ≠ some hash) ∧ OneLine value

def InfoLine.entry? : InfoLine → Option (Bytes × Bytes)
  | .entry key value => some (key, value)
  | _ => none

def infoEntries (ls : List InfoLine) : List (Bytes × Bytes) := ls.filterMap InfoLine.entry?

/-- Every line is ended by CRLF. -/
def infoText (ls : List InfoLine) : Bytes := (ls.map InfoLine.text).flatMap (· ++ crlf)

/-- The lines show the map: every entry once, with headers and blank lines anywhere between. -/
structure Renders (ls : List InfoLine) (m : StringMap) : Prop where
  proper : ∀ l ∈ ls, l.Proper
  once : ((infoEntries ls).map Prod.fst).Nodup
  shows : ∀ key value, m key = some value ↔ (key, value) ∈ infoEntries ls

theorem InfoLine.Proper.cr_not_mem {l : InfoLine} (h : l.Proper) : cr ∉ l.text := by
  cases l with
  | header title => simpa [InfoLine.text] using ⟨by decide, (h : OneLine title).1⟩
  | blank => simp [InfoLine.text]
  | entry key value =>
      rcases h with ⟨⟨-, -, hkey, -⟩, hvalue⟩
      simpa [InfoLine.text] using ⟨hkey.1, by decide, hvalue.1⟩

theorem textLines_infoText {ls : List InfoLine} (h : ∀ l ∈ ls, l.Proper) :
    textLines (infoText ls) = ls.map InfoLine.text ++ [[]] := by
  have hlines : ∀ p ∈ ls.map InfoLine.text, cr ∉ p := by
    intro p hp
    rcases List.mem_map.1 hp with ⟨l, hl, rfl⟩
    exact (h l hl).cr_not_mem
  have hsplit := split_pieces (d := [lf]) _ [] hlines (by simp)
  rw [List.append_nil] at hsplit
  rw [textLines, infoText, crlf, hsplit]
  rfl

theorem lineEffect_text {l : InfoLine} (h : l.Proper) :
    lineEffect [] l.text = match l with
      | .header _ | .blank => .skips
      | .entry key value =>
          if colon ∈ value then
            .throws (.redis (.protocol
              ((key ++ colon :: value) ++ Redis.text "unexpected line format for info")))
          else
            .assigns key value := by
  cases l with
  | header title => simp [lineEffect, InfoLine.text]
  | blank => simp [lineEffect, InfoLine.text]
  | entry key value =>
      rcases h with ⟨⟨hne, hcolon, -, hhead⟩, -⟩
      rcases List.exists_cons_of_ne_nil hne with ⟨b, u, rfl⟩
      have hb : b ≠ hash := by simpa using hhead
      have hdelim : Redis.text ":" = [colon] := rfl
      by_cases hvalue : colon ∈ value
      -- A second colon makes a third item.
      · have hcount : ((b :: u) ++ colon :: value).count colon ≠ 1 := by
          have hpos := List.count_pos_iff.2 hvalue
          rw [List.count_append, List.count_cons_self]
          omega
        have hnone := mt split_colon.1 hcount
        simp only [lineEffect, InfoLine.text, List.cons_append, List.head?_cons, Option.some_inj, hb,
          if_false, hvalue, if_true, reduceCtorEq]
        split
        · rename_i k v hparts
          exact absurd ⟨k, v, hparts⟩ hnone
        · rfl
      -- The key has none, so it ends at the colon after it.
      · have hpair := split_pieces (d := []) [b :: u] value (by simpa using hcolon) hvalue
        have hshape : [b :: u].flatMap (· ++ [colon]) ++ value = (b :: u) ++ colon :: value := by
          simp
        rw [hshape] at hpair
        simp only [lineEffect, InfoLine.text, List.cons_append, List.head?_cons, Option.some_inj, hb,
          if_false, hvalue, reduceCtorEq, hdelim]
        rw [← List.cons_append, hpair]
        rfl

/-! ### What the assignments leave -/

theorem assignAll_of_not_mem {key : Bytes} :
    ∀ {kvs : List (Bytes × Bytes)} (out : StringMap), key ∉ kvs.map Prod.fst →
      assignAll out kvs key = out key := by
  intro kvs
  induction kvs with
  | nil =>
      intro out _
      rfl
  | cons kv kvs ih =>
      intro out h
      rw [List.map_cons, List.mem_cons, not_or] at h
      have hrest := ih (Function.update out kv.1 (some kv.2)) h.2
      rw [Function.update_of_ne h.1] at hrest
      exact hrest

/-- Where no key comes twice, each has the value it came with. -/
theorem assignAll_of_mem {key value : Bytes} :
    ∀ {kvs : List (Bytes × Bytes)} (out : StringMap), (kvs.map Prod.fst).Nodup →
      (key, value) ∈ kvs → assignAll out kvs key = some value := by
  intro kvs
  induction kvs with
  | nil =>
      intro out _ h
      exact absurd h (by simp)
  | cons kv kvs ih =>
      intro out honce h
      rw [List.map_cons, List.nodup_cons] at honce
      rcases List.mem_cons.1 h with rfl | htail
      · have hlast := assignAll_of_not_mem (Function.update out key (some value)) honce.1
        rw [Function.update_self] at hlast
        exact hlast
      · exact ih (Function.update out kv.1 (some kv.2)) honce.2 htail

theorem Renders.assignAll_eq {ls : List InfoLine} {m : StringMap} (h : Renders ls m) :
    assignAll (fun _ => none) (infoEntries ls) = m := by
  funext key
  cases hm : m key with
  | some value => exact assignAll_of_mem _ h.once ((h.shows key value).1 hm)
  | none =>
      refine assignAll_of_not_mem _ fun hmem => ?_
      rcases List.mem_map.1 hmem with ⟨⟨key', value⟩, hkv, rfl⟩
      rw [(h.shows key' value).2 hkv] at hm
      exact absurd hm (by simp)

/-! ### What `info` makes of the lines -/

theorem failure_infoText {ls : List InfoLine} (h : ∀ l ∈ ls, l.Proper) :
    failure [] (ls.map InfoLine.text ++ [[]]) = none ↔
      ∀ key value, (key, value) ∈ infoEntries ls → colon ∉ value := by
  have hline : ∀ l ∈ ls, (lineEffect [] l.text).exn? = none ↔
      ∀ key value, l.entry? = some (key, value) → colon ∉ value := by
    intro l hl
    rw [lineEffect_text (h l hl)]
    cases l with
    | header title => simp [LineEffect.exn?, InfoLine.entry?]
    | blank => simp [LineEffect.exn?, InfoLine.entry?]
    | entry key value => by_cases hvalue : colon ∈ value <;>
        simp [hvalue, LineEffect.exn?, InfoLine.entry?]
  -- After the last CRLF there is one more line, which is empty.
  have hlast : (lineEffect [] []).exn? = none := rfl
  simp only [failure, List.findSome?_eq_none_iff, List.mem_append, List.mem_singleton, infoEntries,
    List.mem_filterMap]
  constructor
  · rintro hnone key value ⟨l, hl, hentry⟩
    exact (hline l hl).1 (hnone _ (Or.inl (List.mem_map_of_mem hl))) key value hentry
  · rintro hcolon line (hmem | rfl)
    · rcases List.mem_map.1 hmem with ⟨l, hl, rfl⟩
      exact (hline l hl).2 fun key value hentry => hcolon key value ⟨l, hl, hentry⟩
    · exact hlast

theorem assigned_infoText :
    ∀ {ls : List InfoLine}, (∀ l ∈ ls, l.Proper) →
      (∀ key value, (key, value) ∈ infoEntries ls → colon ∉ value) →
      assigned [] (ls.map InfoLine.text ++ [[]]) = infoEntries ls := by
  intro ls
  -- Over the lines; at the end `split` has found an empty one, which is skipped.
  induction ls with
  | nil =>
      intro _ _
      rfl
  | cons l ls ih =>
      intro hproper hcolon
      have heffect := lineEffect_text (hproper l (by simp))
      have hrest : ∀ key value, (key, value) ∈ infoEntries ls → colon ∉ value := by
        intro key value hmem
        refine hcolon key value ?_
        rcases List.mem_filterMap.1 hmem with ⟨l', hl', hentry⟩
        exact List.mem_filterMap.2 ⟨l', List.mem_cons_of_mem _ hl', hentry⟩
      have hih := ih (fun l' hl' => hproper l' (List.mem_cons_of_mem _ hl')) hrest
      rw [List.map_cons, List.cons_append, assigned, heffect]
      cases l with
      | header title => exact hih
      | blank => exact hih
      | entry key value =>
          have hvalue : colon ∉ value := hcolon key value (by simp [infoEntries, InfoLine.entry?])
          simpa [hvalue, infoEntries, InfoLine.entry?] using hih

/-- There is a line, the text can be handed out as a bulk, and no value has a colon in it. -/
structure Recoverable (ls : List InfoLine) : Prop where
  lines : ls ≠ []
  nulFree : nul ∉ infoText ls
  fits : ((infoText ls).length : Int) + 2 < longMax
  values : ∀ key value, (key, value) ∈ infoEntries ls → colon ∉ value

theorem infoText_eq_nil_iff {ls : List InfoLine} : infoText ls = [] ↔ ls = [] := by
  cases ls <;> simp [infoText, crlf]

theorem info_returns_map_iff {ls : List InfoLine} {m : StringMap} (h : Renders ls m) {s : Socket}
    (hs : s.Answering (infoWire []) (Reply.bulk (some (infoText ls))).encode) :
    ((Connection.info.run (s, fun _ => none)).1 = .returns () ∧
      (Connection.info.run (s, fun _ => none)).2.2 = m) ↔ Recoverable ls := by
  have hfits : SizeFitsInt (infoWire []) := ⟨by decide⟩
  have hrun : ∀ {o : Outcome Exn Unit} {left : Bytes} {out' : StringMap},
      Decodes (recvInfo []) ((Reply.bulk (some (infoText ls))).encode ++ []) (fun _ => none) o left
        out' →
        (Connection.info.run (s, fun _ => none)).1 = o ∧
          (Connection.info.run (s, fun _ => none)).2.2 = out' := by
    intro o left out' hdec
    rw [List.append_nil] at hdec
    exact request_decodes hfits hs hdec
  constructor
  -- A reply that is refused, for its length or a NUL in it, and a line that throws end the call early.
  · rintro ⟨hreturns, -⟩
    have hsize : ((infoText ls).length : Int) + 2 < longMax := by
      by_contra hover
      rcases lt_or_ge longMax ((infoText ls).length : Int) with hlarge | hle
      · rw [(hrun (recvInfo_halts [] (recvBulkReply_large hlarge [] _))).1] at hreturns
        exact absurd hreturns (by simp)
      · rw [(hrun (recvInfo_halts [] (recvBulkReply_overflow hle (not_lt.1 hover) [] _))).1]
          at hreturns
        exact absurd hreturns (by simp)
    have hnul : nul ∉ infoText ls := by
      intro hnul
      rcases recvInfo_nul [] hnul hsize [] (fun _ => none) with ⟨e, he⟩
      rw [(hrun he).1] at hreturns
      exact absurd hreturns (by simp [throwsRedis])
    have hnone : textFailure [] (infoText ls) = none := by
      rw [(hrun (recvInfo_text [] hnul hsize [] fun _ => none)).1] at hreturns
      cases hfail : textFailure [] (infoText ls) with
      | none => rfl
      | some e =>
          rw [hfail] at hreturns
          exact absurd hreturns (by simp [loopOutcome])
    unfold textFailure at hnone
    split at hnone
    · cases hnone
    · rename_i hne
      rw [textLines_infoText h.proper] at hnone
      exact ⟨fun hnil => hne (infoText_eq_nil_iff.2 hnil), hnul, hsize,
        (failure_infoText h.proper).1 hnone⟩
  · rintro ⟨hlines, hnul, hsize, hvalues⟩
    have hne : infoText ls ≠ [] := mt infoText_eq_nil_iff.1 hlines
    have hfail : textFailure [] (infoText ls) = none := by
      rw [textFailure, if_neg hne, textLines_infoText h.proper]
      exact (failure_infoText h.proper).2 hvalues
    have hassigned : textAssigned [] (infoText ls) = infoEntries ls := by
      rw [textAssigned, if_neg hne, textLines_infoText h.proper]
      exact assigned_infoText h.proper hvalues
    have htext := recvInfo_text [] hnul hsize [] fun _ => none
    rw [hfail, hassigned, h.assignAll_eq] at htext
    exact hrun htext

/-- `info` gives back the map that the server prints exactly when `Recoverable` holds of the lines,
and for a section it returns or throws a redis error exactly when `EndsOrderly` holds of the section
and the text. -/
theorem info_recovers_iff (s : Socket) :
    (∀ (ls : List InfoLine) (m : StringMap), Renders ls m →
      s.Answering (infoWire []) (Reply.bulk (some (infoText ls))).encode →
        (((Connection.info.run (s, fun _ => none)).1 = .returns () ∧
          (Connection.info.run (s, fun _ => none)).2.2 = m) ↔ Recoverable ls)) ∧
    (∀ (sectionName t : Bytes) (out : StringMap),
      s.Answering (infoWire sectionName) (Reply.bulk (some t)).encode →
        (Orderly ((Connection.infoSection sectionName).run (s, out)).1 ↔
          EndsOrderly sectionName t)) :=
  ⟨fun _ _ h hs => info_returns_map_iff h hs, fun _ _ out hs => infoSection_orderly_iff hs out⟩

theorem answering_answering (wire : Bytes) (r : Reply) :
    (answering [r]).Answering wire r.encode :=
  ⟨answering_idle _, rfl, [], rfl⟩

/-- A text of a header, an entry and a blank line. -/
def serverLines (value : Bytes) : List InfoLine :=
  [.header (text " Server"), .entry (text "os") value, .blank]

theorem infoEntries_serverLines (value : Bytes) :
    infoEntries (serverLines value) = [(text "os", value)] := rfl

theorem serverLines_renders {value : Bytes} (h : OneLine value) :
    Renders (serverLines value) (Function.update (fun _ => none) (text "os") (some value)) := by
  refine ⟨?_, ?_, ?_⟩
  · intro l hl
    simp only [serverLines, List.mem_cons, List.not_mem_nil, or_false] at hl
    rcases hl with rfl | rfl | rfl
    · exact (by decide : OneLine (text " Server"))
    · exact ⟨by decide, h⟩
    · trivial
  · rw [infoEntries_serverLines]
    exact List.nodup_singleton _
  · intro key v
    rw [infoEntries_serverLines, List.mem_singleton]
    by_cases hkey : key = text "os"
    · subst hkey
      simp [eq_comm]
    · simp [hkey]

theorem info_recovers_iff_server :
    (((Connection.info.run (answering [.bulk (some (infoText (serverLines (text "Linux"))))],
          fun _ => none)).1 = .returns () ∧
        (Connection.info.run (answering [.bulk (some (infoText (serverLines (text "Linux"))))],
          fun _ => none)).2.2 = Function.update (fun _ => none) (text "os") (some (text "Linux"))) ↔
      Recoverable (serverLines (text "Linux"))) ∧
    (Orderly ((Connection.infoSection (text "Server")).run
        (answering [.bulk (some (text "# Server"))], fun _ => none)).1 ↔
      EndsOrderly (text "Server") (text "# Server")) :=
  ⟨(info_recovers_iff _).1 _ _ (serverLines_renders (by decide)) (answering_answering _ _),
    (info_recovers_iff _).2 _ _ _ (answering_answering _ _)⟩

/-- The value `C:` is not given back, and on the text `#` the section `Server` makes `substr`
throw. -/
theorem info_line_not_understood :
    (Renders (serverLines (text "C:"))
        (Function.update (fun _ => none) (text "os") (some (text "C:"))) ∧
      ¬ ((Connection.info.run (answering [.bulk (some (infoText (serverLines (text "C:"))))],
            fun _ => none)).1 = .returns () ∧
          (Connection.info.run (answering [.bulk (some (infoText (serverLines (text "C:"))))],
            fun _ => none)).2.2 = Function.update (fun _ => none) (text "os") (some (text "C:")))) ∧
    ¬ Orderly ((Connection.infoSection (text "Server")).run
        (answering [.bulk (some [hash])], fun _ => none)).1 := by
  have hrenders : Renders (serverLines (text "C:"))
      (Function.update (fun _ => none) (text "os") (some (text "C:"))) :=
    serverLines_renders (by decide)
  refine ⟨⟨hrenders, fun h => ?_⟩, fun h => ?_⟩
  · have hrecoverable := (info_returns_map_iff hrenders (answering_answering _ _)).1 h
    exact hrecoverable.values (text "os") (text "C:") (by decide) (by decide)
  · rcases (infoSection_orderly_iff (answering_answering _ _) _).1 h with
      ⟨-, hlarge | ⟨-, hbare⟩⟩
    · exact absurd hlarge (by decide)
    · exact hbare ⟨by decide, by decide, [], [], by decide, by simp⟩

end Redis
end CppPractice
