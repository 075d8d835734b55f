import CppPractice.Redis.Framing

/-!
# RoundTrip — decoding undoes the RESP encoding

Bulks come back as they were sent as long as no NUL is in them: `_read_n` makes its string from a C
string.  A null bulk comes back as `connection::missing_value`, an ordinary string that a server may
also have stored.
-/

namespace CppPractice
namespace Redis

open Program

variable {σ : Type}

/-- The string handed out for a bulk. -/
def Bulk.decoded : Bulk → Bytes
  | some v => v
  | none => missingValue

theorem outcome_eq_decoded {b : Bulk} (h : b.NulFree) : b.outcome = .returns b.decoded := by
  cases b with
  | none => rfl
  | some v => simp [Bulk.outcome, bulkOutcome, Bulk.decoded, h v rfl]

theorem recvElements_pushBack :
    ∀ {bs : List Bulk}, (∀ b ∈ bs, b.Fits) → (∀ b ∈ bs, b.NulFree) →
      ∀ (rest : Bytes) (out : List Bytes),
        Decodes (recvElements pushBack bs.length) (encodeBulks bs ++ rest) out (.returns ()) rest
          (out ++ bs.map Bulk.decoded) := by
  intro bs
  -- Over the elements, for every vector `out` they are appended to.
  induction bs with
  | nil =>
      intro _ _ rest out
      simpa only [List.length_nil, recvElements, encodeBulks, List.flatMap_nil, List.nil_append,
        List.map_nil, List.append_nil] using Decodes.pure ()
  | cons b bs ih =>
      intro hfits hnul rest out
      have hhead := recvBulkReply_fits (hfits b (by simp)) (encodeBulks bs ++ rest) out
      rw [outcome_eq_decoded (hnul b (by simp))] at hhead
      have htail := ih (fun c hc => hfits c (by simp [hc])) (fun c hc => hnul c (by simp [hc])) rest
        (pushBack b.decoded out)
      have hwire : encodeBulks (b :: bs) ++ rest = b.encode ++ (encodeBulks bs ++ rest) := by
        simp [encodeBulks]
      have hout : out ++ (b :: bs).map Bulk.decoded =
          pushBack b.decoded out ++ bs.map Bulk.decoded := by
        simp [pushBack]
      rw [hwire, hout]
      exact hhead.bind ((Decodes.modifyOut (pushBack b.decoded)).bind htail)

theorem recvMultiBulkReply_nulFree {bs : List Bulk} (hlen : (bs.length : Int) ≤ longMax)
    (hfits : ∀ b ∈ bs, b.Fits) (hnul : ∀ b ∈ bs, b.NulFree) (rest : Bytes) (out : List Bytes) :
    Decodes recvMultiBulkReply ((Reply.multiBulk (some bs)).encode ++ rest) out
      (.returns (bs.length : Int)) rest (out ++ bs.map Bulk.decoded) :=
  recvMultiBulk_some hlen (recvElements_pushBack hfits hnul rest out)

theorem bulkOutcome_eq_missing_iff (v : Bytes) :
    bulkOutcome v = .returns missingValue ↔ v = missingValue := by
  constructor
  · intro h
    unfold bulkOutcome at h
    split at h
    · simpa using h
    -- Data with a NUL ends in an exception, whichever of the two checks finds it.
    · split at h <;> simp [throwsRedis] at h
  · rintro rfl
    decide

/-- The outcome of a run, read off the judgment. -/
theorem Decodes.outcome_eq {α : Type} {p : Conn σ α} {bs left : Bytes} {out out' : σ}
    {o : Outcome Exn α} (h : Decodes p bs out o left out') {s : Socket × σ}
    (hin : s.1.rx.incoming = bs) (hhealthy : s.1.rx.Healthy) (hout : s.2 = out) : (p s).1 = o :=
  (h s.1.tx s ⟨⟨hin, hhealthy, rfl⟩, hout⟩).1

/-- Bulks and multi-bulks without NULs decode to what was encoded, and the only bulk that decodes
to the result of the null bulk is the one holding `missing_value`. -/
theorem decoding_undoes_encoding :
    (∀ v : Bytes, nul ∉ v → (v.length : Int) + 2 < longMax → ∀ rest : Bytes,
      Decodes (recvBulkReply : Conn Unit Bytes) ((Reply.bulk (some v)).encode ++ rest) ()
        (.returns v) rest ()) ∧
    (∀ bs : List Bulk, (∀ v, some v ∈ bs → nul ∉ v ∧ (v.length : Int) + 2 < longMax) →
      (bs.length : Int) ≤ longMax → ∀ (rest : Bytes) (out : List Bytes),
      Decodes recvMultiBulkReply ((Reply.multiBulk (some bs)).encode ++ rest) out
        (.returns (bs.length : Int)) rest (out ++ bs.map Bulk.decoded)) ∧
    (∀ v : Bytes, (v.length : Int) + 2 < longMax →
      ∀ (rest rest' : Bytes) (s s' : Socket × Unit), s.1.rx.Healthy → s'.1.rx.Healthy →
        s.1.rx.incoming = (Reply.bulk (some v)).encode ++ rest →
        s'.1.rx.incoming = (Reply.bulk none).encode ++ rest' →
        ((recvBulkReply s).1 = (recvBulkReply s').1 ↔ v = missingValue)) := by
  refine ⟨?_, ?_, ?_⟩
  · intro v hnul hfits rest
    have hrun := recvBulkReply_some hfits rest ()
    rw [bulkOutcome, if_pos hnul] at hrun
    exact hrun
  · intro bs hbs hlen rest out
    refine recvMultiBulkReply_nulFree hlen ?_ ?_ rest out
    · rintro b hb v rfl
      exact (hbs v hb).2
    · rintro b hb v rfl
      exact (hbs v hb).1
  · intro v hfits rest rest' s s' hhealthy hhealthy' hin hin'
    have hsome := (recvBulkReply_some hfits rest ()).outcome_eq hin hhealthy rfl
    have hnull := (recvBulkReply_null rest' ()).outcome_eq hin' hhealthy' rfl
    rw [hsome, hnull]
    exact bulkOutcome_eq_missing_iff v

theorem decoding_undoes_encoding_ab :
    Decodes (recvBulkReply : Conn Unit Bytes) ((Reply.bulk (some (text "ab"))).encode ++ text "+")
      () (.returns (text "ab")) (text "+") () :=
  decoding_undoes_encoding.1 (text "ab") (by decide) (by decide) (text "+")

/-- The bulk `a NUL b` is refused, and the bulk holding `missing_value` reads like the null bulk. -/
theorem decoding_not_injective :
    (recvBulkReply (plainSocket (Reply.bulk (some [97, nul, 98])).encode, ())).1 ≠
        .returns [97, nul, 98] ∧
      (recvBulkReply (plainSocket (Reply.bulk (some missingValue)).encode, ())).1 =
        (recvBulkReply (plainSocket (Reply.bulk none).encode, ())).1 := by
  have houtcome : ∀ v : Bytes, (v.length : Int) + 2 < longMax →
      (recvBulkReply (plainSocket (Reply.bulk (some v)).encode, ())).1 = bulkOutcome v := by
    intro v hfits
    exact (recvBulkReply_some hfits [] ()).outcome_eq (List.append_nil _).symm
      (plainSocket_healthy _) rfl
  have hnull : (recvBulkReply (plainSocket (Reply.bulk none).encode, ())).1 =
      .returns missingValue :=
    (recvBulkReply_null [] ()).outcome_eq (List.append_nil _).symm (plainSocket_healthy _) rfl
  rw [houtcome _ (by decide), houtcome _ (by decide), hnull]
  decide

end Redis
end CppPractice
