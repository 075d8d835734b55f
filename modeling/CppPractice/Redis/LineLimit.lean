import CppPractice.Redis.ReaderSteps

/-!
# LineLimit — the `max_size` of `_read_line`

On a connection that only delivers, what `_read_line(maxSize)` does with a stream: how many calls of
`recv` it makes, how much it keeps, and what it returns.  `Delivers bs` are the results such a
connection gives over the stream `bs`, in chunks of any size; a run over it is complete when the
function has returned, or waits for bytes that have not come.

The invariant is `Line`: before the first line feed of the stream is taken, what is in the string
stream is the part of the stream that has been taken, and every two calls have taken at least a byte.
-/

namespace CppPractice
namespace Redis
namespace ReadLine

open Program Trace

/-- A chunk of the stream for a peek, and then those of its bytes that are asked for. -/
def Delivers (bs : Bytes) : State → RecvResult → Prop
  | .peeking oss, r => r = .interrupted ∨ ∃ k, 0 < k ∧ k ≤ bufferSize ∧ oss.length + k ≤ bs.length ∧
      r = .received ((bs.drop oss.length).take k)
  | .taking oss k _, r =>
      r = .interrupted ∨ r = .received ((bs.drop (oss.length - k)).take k)
  | .halted _, _ => False

/-- The function has returned, or has taken all there is and waits. -/
def Complete (bs : Bytes) : State → Prop
  | .peeking oss => oss.length = bs.length
  | .taking _ _ _ => False
  | .halted _ => True

/-- The bytes in the string stream. -/
def State.buffered : State → Nat
  | .peeking oss | .taking oss _ _ => oss.length
  | .halted _ => 0

/-- The calls of `recv` that were not interrupted. -/
def reads (rs : List RecvResult) : Nat := rs.countP (· ≠ .interrupted)

/-- What a limit of `maxSize` promises: a bounded number of calls, and for a stream without a line
feed among its first `maxSize` bytes, at most one chunk beyond them kept and a blank returned. -/
structure LimitEnforced (maxSize : Nat) (bs : Bytes) (rs : List RecvResult) : Prop where
  bounded : reads rs ≤ 2 * (maxSize + bufferSize)
  kept : maxSize ≤ bs.length → lf ∉ bs.take maxSize → ∀ before after, rs = before ++ after →
    (run (resume maxSize) (start maxSize) before).buffered ≤ maxSize + bufferSize
  blank : maxSize ≤ bs.length → lf ∉ bs.take maxSize →
    run (resume maxSize) (start maxSize) rs = .halted (.returns [])

/-- The line feed comes among the first `maxSize` bytes, or not so many bytes come, or the line is
nothing but CRs and no longer than `maxSize` and one chunk. -/
def LimitCondition (maxSize : Nat) (bs : Bytes) : Prop :=
  lf ∈ bs.take maxSize ∨ bs.length < maxSize ∨
    ∃ n, n < maxSize + bufferSize ∧ List.replicate n cr ++ [lf] <+: bs

/-! ## The invariant -/

/-- Where the run stands in the stream. -/
def Line (bs : Bytes) (seen : List RecvResult) : State → Prop
  | .peeking oss => oss <+: bs ∧ lf ∉ oss ∧ reads seen ≤ 2 * oss.length
  | .taking oss k found =>
      oss <+: bs ∧ k ≤ oss.length ∧ reads seen + 1 ≤ 2 * oss.length ∧
        (found = true → ∃ line, oss = line ++ [lf] ∧ lf ∉ line) ∧ (found = false → lf ∉ oss)
  | .halted o => ∃ line, line ++ [lf] <+: bs ∧ lf ∉ line ∧ o = .returns (rtrim line crlf) ∧
      reads seen ≤ 2 * (line.length + 1)

theorem reads_concat_interrupted (seen : List RecvResult) :
    reads (seen ++ [.interrupted]) = reads seen := by
  simp [reads]

theorem reads_concat_received (seen : List RecvResult) (data : Bytes) :
    reads (seen ++ [.received data]) = reads seen + 1 := by
  simp [reads]

theorem line_interrupted {bs : Bytes} {seen : List RecvResult} {st : State} (h : Line bs seen st) :
    Line bs (seen ++ [.interrupted]) st := by
  cases st <;> simpa only [Line, reads_concat_interrupted] using h

/-- A chunk without a line feed is taken whole, and one with a line feed up to it. -/
theorem take_toRead (data : Bytes) :
    (lf ∉ data ∧ toRead data = data.length ∧ (data.findIdx? (· = lf)).isSome = false) ∨
      ∃ line rest, data = line ++ lf :: rest ∧ lf ∉ line ∧ toRead data = line.length + 1 ∧
        (data.findIdx? (· = lf)).isSome = true := by
  by_cases hmem : lf ∈ data
  · right
    rcases eq_line_append hmem with ⟨hlf, hdata⟩
    have hfind := findIdx?_lf_line hlf (data.dropWhile (· ≠ lf)).tail
    rw [← hdata] at hfind
    exact ⟨_, _, hdata, hlf, by simp only [toRead, hfind], by simp only [hfind, Option.isSome_some]⟩
  · left
    have hfind := findIdx?_lf_of_notMem hmem
    exact ⟨hmem, by simp only [toRead, hfind], by simp only [hfind, Option.isSome_none]⟩

/-- The next `k` bytes of the stream after a first part of it. -/
theorem prefix_append_chunk {bs oss : Bytes} (h : oss <+: bs) (k : Nat) :
    oss ++ (bs.drop oss.length).take k <+: bs := by
  rcases h with ⟨rest, rfl⟩
  rw [List.drop_left, List.prefix_append_right_inj]
  exact List.take_prefix _ _

theorem line_peeked {bs : Bytes} {maxSize : Int} {seen : List RecvResult} {oss : Bytes} {k : Nat}
    (h : Line bs seen (.peeking oss)) (hpos : 0 < k) (hle : oss.length + k ≤ bs.length) :
    Line bs (seen ++ [.received ((bs.drop oss.length).take k)])
      (resume maxSize (.peeking oss) (.received ((bs.drop oss.length).take k))) := by
  rcases h with ⟨hpre, hlf, hreads⟩
  have hchunk := prefix_append_chunk hpre k
  have hlength : ((bs.drop oss.length).take k).length = k := by
    rw [List.length_take, List.length_drop]
    omega
  -- From here on only the length of the chunk matters, and that it goes on with the stream.
  generalize (bs.drop oss.length).take k = data at hchunk hlength ⊢
  simp only [resume]
  rcases take_toRead data with ⟨hdata, hread, hfound⟩ | ⟨line, rest, rfl, hline, hread, hfound⟩
  · rw [hread, hfound, List.take_length]
    refine ⟨hchunk, by rw [List.length_append]; omega, ?_, by simp, fun _ => ?_⟩
    · rw [reads_concat_received, List.length_append]
      omega
    · simpa using ⟨hlf, hdata⟩
  · have htake : (line ++ lf :: rest).take (line.length + 1) = line ++ [lf] := by
      simp [List.take_append]
    rw [hread, hfound, htake]
    refine ⟨?_, by simp, ?_, fun _ => ⟨oss ++ line, by simp, by simpa using ⟨hlf, hline⟩⟩, by simp⟩
    · refine List.IsPrefix.trans ?_ hchunk
      rw [List.prefix_append_right_inj]
      exact ⟨rest, by simp⟩
    · rw [reads_concat_received]
      simp only [List.length_append, List.length_singleton]
      omega

theorem line_taken {bs : Bytes} {maxSize : Int} (hmax : 0 < maxSize) {seen : List RecvResult}
    {oss : Bytes} {k : Nat} {found : Bool} (h : Line bs seen (.taking oss k found)) (data : Bytes) :
    Line bs (seen ++ [.received data]) (loop maxSize oss found) := by
  rcases h with ⟨hpre, -, hreads, hline, hnone⟩
  cases found with
  | false =>
      simp only [loop, hmax, and_self, if_true]
      exact ⟨hpre, hnone rfl, by rw [reads_concat_received]; exact hreads⟩
  | true =>
      rcases hline rfl with ⟨line, rfl, hlf⟩
      simp only [loop, Bool.true_eq_false, and_false, if_false]
      refine ⟨line, hpre, hlf, by rw [rtrim_append_lf], ?_⟩
      rw [reads_concat_received]
      simpa using hreads

theorem line_resume {bs : Bytes} {maxSize : Int} (hmax : 0 < maxSize) {seen : List RecvResult}
    {st : State} {r : RecvResult} (h : Line bs seen st) (hr : Delivers bs st r) :
    Line bs (seen ++ [r]) (resume maxSize st r) := by
  cases st with
  | halted o => exact hr.elim
  | peeking oss =>
      rcases hr with rfl | ⟨k, hpos, -, hle, rfl⟩
      · exact line_interrupted h
      · exact line_peeked h hpos hle
  | taking oss k found =>
      rcases hr with rfl | rfl
      · exact line_interrupted h
      · exact line_taken hmax h _

theorem line_run {bs : Bytes} {maxSize : Int} (hmax : 0 < maxSize) {rs : List RecvResult}
    (h : Along (resume maxSize) (Delivers bs) (start maxSize) rs) :
    ∀ before after, rs = before ++ after →
      Line bs before (run (resume maxSize) (start maxSize) before) := by
  refine history_of_along ?_ ?_ h
  · intro seen st r hst hr
    exact line_resume hmax hst hr
  · simp only [start, loop, hmax, and_self, if_true]
    exact ⟨List.nil_prefix, by simp, by simp [reads]⟩

/-- A run that has returned took the end of the line with its last call. -/
theorem taking_of_halted {bs : Bytes} {maxSize : Int} (hmax : 0 < maxSize) {rs : List RecvResult}
    (h : Along (resume maxSize) (Delivers bs) (start maxSize) rs) {o : Outcome Exn Bytes}
    (ho : run (resume maxSize) (start maxSize) rs = .halted o) :
    ∃ before r oss k, rs = before ++ [r] ∧
      run (resume maxSize) (start maxSize) before = .taking oss k true ∧
      o = .returns (rtrim oss crlf) := by
  rcases List.eq_nil_or_concat' rs with rfl | ⟨before, r, rfl⟩
  · simp [start, loop, hmax] at ho
  · have hr := h before r [] rfl
    rw [run_concat] at ho
    cases hst : run (resume maxSize) (start maxSize) before with
    | halted o =>
        rw [hst] at hr
        exact hr.elim
    | peeking oss =>
        rw [hst] at hr ho
        rcases hr with rfl | ⟨k, -, -, -, rfl⟩ <;> simp [resume] at ho
    | taking oss k found =>
        rw [hst] at hr ho
        rcases hr with rfl | rfl
        · simp [resume] at ho
        · cases found with
          | false => simp [resume, loop, hmax] at ho
          | true =>
              simp only [resume, loop, Bool.true_eq_false, and_false, if_false] at ho
              exact ⟨before, _, oss, k, rfl, hst, by cases ho; rfl⟩

/-! ## Lines of a stream -/

/-- A part of the stream without a line feed is no longer than the first line. -/
theorem length_le_line {bs oss line : Bytes} (h : oss <+: bs) (hlf : lf ∉ oss)
    (hline : line ++ [lf] <+: bs) : oss.length ≤ line.length := by
  by_contra hlong
  have hle : (line ++ [lf]).length ≤ oss.length := by
    rw [List.length_append, List.length_singleton]
    omega
  have hpart : line ++ [lf] <+: oss := List.prefix_of_prefix_length_le hline h hle
  exact hlf (hpart.subset (by simp))

theorem line_unique {bs line line' : Bytes} (h : line ++ [lf] <+: bs) (hlf : lf ∉ line)
    (h' : line' ++ [lf] <+: bs) (hlf' : lf ∉ line') : line = line' := by
  have hpre : line <+: bs := (List.prefix_append line [lf]).trans h
  have hpre' : line' <+: bs := (List.prefix_append line' [lf]).trans h'
  have hlength : line.length = line'.length :=
    le_antisymm (length_le_line hpre hlf h') (length_le_line hpre' hlf' h)
  exact (List.prefix_of_prefix_length_le hpre hpre' hlength.le).eq_of_length hlength

theorem rtrim_replicate_cr (n : Nat) : rtrim (List.replicate n cr) crlf = [] := by
  rw [rtrim, List.rdropWhile_eq_nil_iff]
  intro b hb
  rw [List.eq_of_mem_replicate hb]
  decide

/-- A line that is trimmed away is nothing but CRs. -/
theorem eq_replicate_of_rtrim {line : Bytes} (hlf : lf ∉ line) (h : rtrim line crlf = []) :
    line = List.replicate line.length cr := by
  rw [rtrim, List.rdropWhile_eq_nil_iff] at h
  refine List.eq_replicate_of_mem fun b hb => ?_
  rcases List.mem_cons.1 (of_decide_eq_true (h b hb)) with hcr | hmem
  · exact hcr
  · exact absurd (List.mem_singleton.1 hmem ▸ hb) hlf

/-- Under the condition the first line, with its end, is within the limit. -/
theorem LimitCondition.line_le {maxSize : Nat} {bs line : Bytes} (h : LimitCondition maxSize bs)
    (hline : line ++ [lf] <+: bs) (hlf : lf ∉ line) : line.length + 1 ≤ maxSize + bufferSize := by
  have hlength := hline.length_le
  rw [List.length_append, List.length_singleton] at hlength
  rcases h with hmem | hshort | ⟨n, hn, hcr⟩
  · -- The line feed of `line` is the first one, so it comes among the first `maxSize` bytes.
    by_contra hlong
    have hpart : bs.take maxSize <+: line ++ [lf] :=
      List.prefix_of_prefix_length_le (List.take_prefix _ _) hline
        (by rw [List.length_append, List.length_singleton, List.length_take]; omega)
    have hfew : (bs.take maxSize).length ≤ line.length := by
      rw [List.length_take]
      omega
    have hwithin : bs.take maxSize <+: line :=
      List.prefix_of_prefix_length_le hpart (List.prefix_append line [lf]) hfew
    exact hlf (hwithin.subset hmem)
  · omega
  · have hsame := line_unique hline hlf hcr (by
      intro hmem
      exact absurd (List.eq_of_mem_replicate hmem) (by decide))
    rw [hsame, List.length_replicate]
    omega

theorem LimitCondition.lf_mem {maxSize : Nat} {bs : Bytes} (h : LimitCondition maxSize bs)
    (hlong : maxSize ≤ bs.length) : lf ∈ bs := by
  rcases h with hmem | hshort | ⟨n, -, hcr⟩
  · exact List.mem_of_mem_take hmem
  · exact absurd hlong (not_le.2 hshort)
  · exact hcr.subset (by simp)

/-! ## The limit -/

section Limit

variable {maxSize : Nat} {bs : Bytes} {rs : List RecvResult}

theorem condition_of_enforced (hmax : 0 < maxSize)
    (h : Along (resume maxSize) (Delivers bs) (start maxSize) rs)
    (henforced : LimitEnforced maxSize bs rs) : LimitCondition maxSize bs := by
  by_contra hcond
  have hlf : lf ∉ bs.take maxSize := fun hmem => hcond (Or.inl hmem)
  have hlong : maxSize ≤ bs.length := not_lt.1 fun hshort => hcond (Or.inr (Or.inl hshort))
  have hmax' : (0 : Int) < maxSize := by exact_mod_cast hmax
  -- At the limit the function must return a blank line, so that what it took were CRs and a line feed.
  rcases taking_of_halted hmax' h (henforced.blank hlong hlf) with
    ⟨before, r, oss, k, hrs, hst, hblank⟩
  have hline := line_run hmax' h before [r] hrs
  have hkept := henforced.kept hlong hlf before [r] hrs
  rw [hst] at hline hkept
  rcases hline with ⟨hpre, -, -, hfound, -⟩
  rcases hfound rfl with ⟨line, rfl, hnone⟩
  rw [rtrim_append_lf] at hblank
  have hcr := eq_replicate_of_rtrim hnone (by simpa using hblank.symm)
  have hlength : line.length + 1 ≤ maxSize + bufferSize := by
    simpa [State.buffered] using hkept
  exact hcond (Or.inr (Or.inr ⟨line.length, by omega, hcr ▸ hpre⟩))

/-- A complete run has returned a line, or has taken a stream that has no line feed. -/
theorem complete_run (hmax : (0 : Int) < maxSize)
    (h : Along (resume maxSize) (Delivers bs) (start maxSize) rs)
    (hcomplete : Complete bs (run (resume maxSize) (start maxSize) rs)) :
    (∃ line, line ++ [lf] <+: bs ∧ lf ∉ line ∧
        run (resume maxSize) (start maxSize) rs = .halted (.returns (rtrim line crlf)) ∧
        reads rs ≤ 2 * (line.length + 1)) ∨
      lf ∉ bs ∧ reads rs ≤ 2 * bs.length := by
  have hlast := line_run hmax h rs [] (by simp)
  cases hst : run (resume maxSize) (start maxSize) rs with
  | taking oss k found =>
      rw [hst] at hcomplete
      exact hcomplete.elim
  | halted o =>
      rw [hst] at hlast
      rcases hlast with ⟨line, hpre, hlf, rfl, hreads⟩
      exact Or.inl ⟨line, hpre, hlf, rfl, hreads⟩
  | peeking oss =>
      rw [hst] at hlast hcomplete
      rcases hlast with ⟨hpre, hlf, hreads⟩
      have hall : oss = bs := hpre.eq_of_length hcomplete
      subst hall
      exact Or.inr ⟨hlf, hreads⟩

/-- What is buffered is a part of the first line and of its end. -/
theorem buffered_le {line : Bytes} {seen : List RecvResult} {st : State} (hstate : Line bs seen st)
    (hfirst : line ++ [lf] <+: bs) (hlf : lf ∉ line) : st.buffered ≤ line.length + 1 := by
  cases st with
  | halted o => exact Nat.zero_le _
  | peeking oss =>
      have hpart := length_le_line hstate.1 hstate.2.1 hfirst
      simp only [State.buffered]
      omega
  | taking oss k found =>
      rcases hstate with ⟨hpre, -, -, hfound, hnone⟩
      simp only [State.buffered]
      cases found with
      | false =>
          have hpart := length_le_line hpre (hnone rfl) hfirst
          omega
      | true =>
          rcases hfound rfl with ⟨line', rfl, hlf'⟩
          have hsame := line_unique hpre hlf' hfirst hlf
          rw [hsame, List.length_append, List.length_singleton]

theorem enforced_of_condition (hmax : 0 < maxSize)
    (h : Along (resume maxSize) (Delivers bs) (start maxSize) rs)
    (hcomplete : Complete bs (run (resume maxSize) (start maxSize) rs))
    (hcond : LimitCondition maxSize bs) : LimitEnforced maxSize bs rs := by
  have hmax' : (0 : Int) < maxSize := by exact_mod_cast hmax
  have hend := complete_run hmax' h hcomplete
  refine ⟨?_, ?_, ?_⟩
  · rcases hend with ⟨line, hpre, hlf, -, hreads⟩ | ⟨hlf, hreads⟩
    · have hle := hcond.line_le hpre hlf
      omega
    -- A stream without a line feed is shorter than the limit.
    · have hshort : bs.length < maxSize := by
        by_contra hlong
        exact hlf (hcond.lf_mem (not_lt.1 hlong))
      omega
  · intro hlong _ before after hrs
    rcases eq_line_append (hcond.lf_mem hlong) with ⟨hlf, hbs⟩
    have hfirst : bs.takeWhile (· ≠ lf) ++ [lf] <+: bs :=
      ⟨(bs.dropWhile (· ≠ lf)).tail, by rw [List.append_assoc]; exact hbs.symm⟩
    have hbuffered := buffered_le (line_run hmax' h before after hrs) hfirst hlf
    exact hbuffered.trans (hcond.line_le hfirst hlf)
  · intro hlong hfirst
    rcases hend with ⟨line, hpre, hlf, hrun, -⟩ | ⟨hlf, -⟩
    · rcases hcond with hmem | hshort | ⟨n, -, hcr⟩
      · exact absurd hmem hfirst
      · exact absurd hlong (not_le.2 hshort)
      -- The line has come with nothing but CRs in it, and these are trimmed away.
      · have hsame := line_unique hpre hlf hcr fun hmem =>
          absurd (List.eq_of_mem_replicate hmem) (by decide)
        rw [hrun, hsame, rtrim_replicate_cr]
    · exact absurd (hcond.lf_mem hlong) hlf

/-- For every stream, in whatever chunks it comes, `_read_line(maxSize)` keeps to the limit exactly
when `LimitCondition` holds of the stream. -/
theorem line_limit_enforced_iff (hmax : 0 < maxSize)
    (h : Along (resume maxSize) (Delivers bs) (start maxSize) rs)
    (hcomplete : Complete bs (run (resume maxSize) (start maxSize) rs)) :
    LimitEnforced maxSize bs rs ↔ LimitCondition maxSize bs :=
  ⟨condition_of_enforced hmax h, enforced_of_condition hmax h hcomplete⟩

end Limit

theorem line_limit_enforced_iff_short :
    LimitEnforced 2 [97, lf, 98] [.received [97, lf], .received [97, lf]] ↔
      LimitCondition 2 [97, lf, 98] := by
  refine line_limit_enforced_iff (by decide) ?_ trivial
  refine along_cons.2 ⟨Or.inr ⟨2, by decide, by decide, by decide, rfl⟩, ?_⟩
  exact along_cons.2 ⟨Or.inr rfl, along_nil _⟩

/-- Four bytes have come and none of them is a line feed: with a limit of two the function goes on
reading. -/
theorem line_limit_not_enforced :
    Along (resume 2) (Delivers (text "abcd")) (start 2)
        [.received (text "abcd"), .received (text "abcd")] ∧
      Complete (text "abcd") (run (resume 2) (start 2)
        [.received (text "abcd"), .received (text "abcd")]) ∧
      ¬ LimitEnforced 2 (text "abcd") [.received (text "abcd"), .received (text "abcd")] := by
  have hrun : Along (resume 2) (Delivers (text "abcd")) (start 2)
      [.received (text "abcd"), .received (text "abcd")] :=
    along_cons.2 ⟨Or.inr ⟨4, by decide, by decide, by decide, rfl⟩,
      along_cons.2 ⟨Or.inr rfl, along_nil _⟩⟩
  refine ⟨hrun, rfl, fun henforced => ?_⟩
  have hcond : LimitCondition 2 (text "abcd") := condition_of_enforced (by decide) hrun henforced
  exact absurd (hcond.lf_mem (by decide)) (by decide)

end ReadLine
end Redis
end CppPractice
