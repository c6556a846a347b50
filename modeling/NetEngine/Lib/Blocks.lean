import Mathlib.Data.List.Basic
import Mathlib.Data.List.Infix

/-!
# Streams of blocks

A sender turns a list of blocks into one stream of cells; a receiver sees ever
longer beginnings of that stream.  `whole` lists the blocks that lie entirely
in the first `n` cells and `rest` is what was received behind them, so a
receiver is exact when it has delivered `whole` and still holds `rest`.
-/

namespace NetEngine
namespace Blocks

universe u v

variable {φ : Type u} {β : Type v} (cells : φ → List β)

/-- The stream of a list of blocks. -/
def stream (bs : List φ) : List β :=
  bs.flatMap cells

/-- Blocks that lie entirely in the first `n` cells of their stream. -/
def whole : List φ → Nat → List φ
  | [], _ => []
  | b :: bs, n =>
      if (cells b).length ≤ n then
        b :: whole bs (n - (cells b).length)
      else []

/-- What was received behind the last whole block. -/
def rest (bs : List φ) (received : List β) : List β :=
  received.drop (stream cells (whole cells bs received.length)).length

/-- Blocks completed while the received length grows from `n` to `m`. -/
def newly (bs : List φ) (n m : Nat) : List φ :=
  (whole cells bs m).drop (whole cells bs n).length

/-- A proper beginning of some block, or nothing. -/
def Incomplete (bs : List φ) (xs : List β) : Prop :=
  xs = [] ∨ ∃ b ∈ bs, xs <+: cells b ∧ xs.length < (cells b).length

theorem stream_cons (b : φ) (bs : List φ) :
    stream cells (b :: bs) = cells b ++ stream cells bs := by
  rfl

theorem stream_append (bs cs : List φ) :
    stream cells (bs ++ cs) = stream cells bs ++ stream cells cs := by
  simp [stream]

/-- Non-empty blocks are no more than the cells of their stream. -/
theorem length_le_stream_length
    {bs : List φ} (h : ∀ b ∈ bs, cells b ≠ []) :
    bs.length ≤ (stream cells bs).length := by
  induction bs with
  | nil =>
      simp
  | cons b bs ih =>
      have hb : 0 < (cells b).length :=
        List.length_pos_iff.mpr (h b (by simp))
      have htail := ih (fun c hc => h c (List.mem_cons_of_mem _ hc))
      rw [stream_cons, List.length_append, List.length_cons]
      omega

@[simp] theorem whole_zero_of_nonempty
    {bs : List φ} (h : ∀ b ∈ bs, cells b ≠ []) :
    whole cells bs 0 = [] := by
  cases bs with
  | nil =>
      rfl
  | cons b bs =>
      have hb : (cells b).length ≠ 0 := by
        simpa using h b (by simp)
      simp [whole, hb]

/-- Receiving more completes more blocks and takes none back. -/
theorem whole_prefix_of_le (bs : List φ) {n m : Nat} (h : n ≤ m) :
    whole cells bs n <+: whole cells bs m := by
  induction bs generalizing n m with
  | nil =>
      simp [whole]
  | cons b bs ih =>
      by_cases hn : (cells b).length ≤ n
      · have hm : (cells b).length ≤ m := hn.trans h
        simp only [whole, hn, hm, if_true]
        exact (List.prefix_cons_inj b).mpr (ih (by omega))
      · simp [whole, hn]

theorem whole_append_newly (bs : List φ) {n m : Nat} (h : n ≤ m) :
    whole cells bs n ++ newly cells bs n m = whole cells bs m := by
  obtain ⟨gs, hgs⟩ := whole_prefix_of_le cells bs h
  rw [newly, ← hgs, List.drop_left]

/--
A beginning of the stream is its whole blocks and then a part too short to be
the next one.
-/
theorem received_split
    (bs : List φ) {received : List β}
    (h : received <+: stream cells bs) :
    received =
        stream cells (whole cells bs received.length) ++
          rest cells bs received ∧
      Incomplete cells bs (rest cells bs received) := by
  induction bs generalizing received with
  | nil =>
      have hnil : received = [] := by simpa [stream] using h
      subst hnil
      exact ⟨by simp [rest, whole, stream], Or.inl (by simp [rest])⟩
  | cons b bs ih =>
      rw [stream_cons] at h
      by_cases hlen : (cells b).length ≤ received.length
      · have hb : cells b <+: received :=
          List.prefix_of_prefix_length_le (List.prefix_append _ _) h hlen
        obtain ⟨tail, rfl⟩ := hb
        have htail : tail <+: stream cells bs :=
          (List.prefix_append_right_inj _).mp h
        obtain ⟨hsplit, hinc⟩ := ih htail
        have hwhole :
            whole cells (b :: bs) (cells b ++ tail).length =
              b :: whole cells bs tail.length := by
          simp [whole]
        have hrest :
            rest cells (b :: bs) (cells b ++ tail) =
              rest cells bs tail := by
          rw [rest, hwhole, stream_cons, List.length_append,
            List.drop_append]
          simp [rest]
        rw [hwhole, hrest, stream_cons, List.append_assoc, ← hsplit]
        refine ⟨rfl, ?_⟩
        rcases hinc with hnil | ⟨c, hc, hpre⟩
        · exact Or.inl hnil
        · exact Or.inr ⟨c, List.mem_cons_of_mem _ hc, hpre⟩
      · have hwhole : whole cells (b :: bs) received.length = [] := by
          simp [whole, hlen]
        have hrest : rest cells (b :: bs) received = received := by
          simp [rest, hwhole, stream]
        rw [hwhole, hrest]
        refine ⟨by simp [stream], Or.inr ⟨b, by simp, ?_, by omega⟩⟩
        exact List.prefix_of_prefix_length_le h (List.prefix_append _ _)
          (by omega)

/--
A chunk behind the old rest is the newly completed blocks and then the new
rest.
-/
theorem rest_append_chunk
    (bs : List φ) {received chunk : List β}
    (h : received ++ chunk <+: stream cells bs) :
    rest cells bs received ++ chunk =
      stream cells
          (newly cells bs received.length (received ++ chunk).length) ++
        rest cells bs (received ++ chunk) := by
  have hold := (received_split cells bs
    ((List.prefix_append received chunk).trans h)).1
  have hnew := (received_split cells bs h).1
  have hle : received.length ≤ (received ++ chunk).length := by simp
  rw [← whole_append_newly cells bs hle, stream_append,
    List.append_assoc] at hnew
  have hsame :
      stream cells (whole cells bs received.length) ++
          (rest cells bs received ++ chunk) =
        stream cells (whole cells bs received.length) ++
          (stream cells
              (newly cells bs received.length
                (received ++ chunk).length) ++
            rest cells bs (received ++ chunk)) := by
    rw [← hnew, ← List.append_assoc, ← hold]
  exact List.append_cancel_left hsame

end Blocks
end NetEngine
