import Mathlib.Data.List.Basic

/-!
# Blocks in frames that mark a start

A block is cut into frames, of which the first is marked. The length of a block
is told by its own first bytes, so a receiver knows when it is complete and
passes over what fills the rest of the last frame.
-/
namespace StartedFrames

variable {α : Type}

structure Frame (α : Type) where
  starts : Bool
  bytes : List α

/-- What a receiver has of the block in progress, and the frames to come. The length of a block
is known once enough of it is there. -/
def collect (length : List α → Option Nat) : Option (List α) → List (Frame α) → List (List α)
  | _, [] => []
  | progress, f :: frames =>
    match if f.starts then some f.bytes else progress.map (· ++ f.bytes) with
    | none => collect length none frames
    | some bytes =>
      match length bytes with
      | none => collect length (some bytes) frames
      | some n =>
        if n ≤ bytes.length then bytes.take n :: collect length none frames
        else collect length (some bytes) frames

/-- The length of `block` is told by its first bytes, at the latest when all are there. -/
structure TellsLength (length : List α → Option Nat) (block : List α) : Prop where
  early : ∀ xs n, xs <+: block → length xs = some n → n = block.length
  whole : ∀ more, length (block ++ more) = some block.length

/-- Frames that carry a block and filling: only the first is marked. -/
structure Carries (block : List α) (frames : List (Frame α)) : Prop where
  first : ∃ f, frames.head? = some f ∧ f.starts = true
  others : ∀ f ∈ frames.tail, f.starts = false
  bytes : ∃ filling, (frames.map Frame.bytes).flatten = block ++ filling

variable {length : List α → Option Nat} {block filling sent bytes : List α}
  {frames later : List (Frame α)}

/-- Without a block in progress, frames without a mark are passed over. -/
theorem collect_none (h : ∀ f ∈ frames, f.starts = false) :
    collect length none (frames ++ later) = collect length none later := by
  induction frames with
  | nil => rfl
  | cons f frames ih =>
    rw [List.cons_append, collect, h f List.mem_cons_self]
    exact ih fun g hg => h g (List.mem_cons_of_mem _ hg)

/-- The rest of a block: the bytes so far and those of the next frame. -/
theorem collect_progress (htells : TellsLength length block)
    (hothers : ∀ f ∈ frames, f.starts = false)
    (hbytes : bytes ++ (frames.map Frame.bytes).flatten = block ++ filling)
    (hnext : ∀ sent, sent.length < block.length →
      sent ++ (frames.map Frame.bytes).flatten = block ++ filling →
      collect length (some sent) (frames ++ later) = block :: collect length none later) :
    (match length bytes with
      | none => collect length (some bytes) (frames ++ later)
      | some n =>
        if n ≤ bytes.length then bytes.take n :: collect length none (frames ++ later)
        else collect length (some bytes) (frames ++ later)) =
      block :: collect length none later := by
  by_cases hlen : block.length ≤ bytes.length
  · obtain ⟨more, hmore⟩ : block <+: bytes := by
      refine List.prefix_of_prefix_length_le ⟨filling, rfl⟩ ?_ hlen
      exact ⟨_, hbytes⟩
    rw [← hmore, htells.whole more]
    dsimp only
    rw [if_pos (by simp), List.take_left, collect_none hothers]
  · have hprefix : bytes <+: block :=
      List.prefix_of_prefix_length_le ⟨_, hbytes⟩ ⟨filling, rfl⟩ (by omega)
    have hgo := hnext bytes (by omega) hbytes
    cases hknown : length bytes with
    | none => exact hgo
    | some n =>
      dsimp only
      rw [htells.early bytes n hprefix hknown, if_neg hlen, hgo]

/-- A block that has begun is completed by frames without a mark. -/
theorem collect_some (htells : TellsLength length block)
    (hothers : ∀ f ∈ frames, f.starts = false) (hsent : sent.length < block.length)
    (hbytes : sent ++ (frames.map Frame.bytes).flatten = block ++ filling) :
    collect length (some sent) (frames ++ later) = block :: collect length none later := by
  induction frames generalizing sent with
  | nil =>
    have := congrArg List.length hbytes
    simp only [List.map_nil, List.flatten_nil, List.append_nil, List.length_append] at this
    omega
  | cons f frames ih =>
    have hrest : ∀ g ∈ frames, g.starts = false := fun g hg =>
      hothers g (List.mem_cons_of_mem _ hg)
    rw [List.map_cons, List.flatten_cons, ← List.append_assoc] at hbytes
    rw [List.cons_append, collect, hothers f List.mem_cons_self]
    exact collect_progress htells hrest hbytes fun sent hsent hbytes => ih hrest hsent hbytes

/-- Whatever is in progress, a marked frame begins a block, and the frames that carry it are
received as the block. -/
theorem collect_carries (htells : TellsLength length block) (h : Carries block frames)
    (progress : Option (List α)) :
    collect length progress (frames ++ later) = block :: collect length none later := by
  obtain ⟨f, hhead, hstarts⟩ := h.first
  obtain ⟨filling, hbytes⟩ := h.bytes
  cases frames with
  | nil => cases hhead
  | cons g frames =>
    cases hhead
    rw [List.map_cons, List.flatten_cons] at hbytes
    rw [List.cons_append, collect, hstarts, if_pos rfl]
    exact collect_progress htells h.others hbytes fun sent hsent hbytes =>
      collect_some htells h.others hsent hbytes

end StartedFrames
