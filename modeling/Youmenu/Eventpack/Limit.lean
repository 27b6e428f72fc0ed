import Mathlib.Data.List.Induction
import Youmenu.Eventpack.Ringbuffer

/-!
# What the ring buffer makes of its limit

`ep_rb_expand_limit` adds the smaller of the write and the limit to a capacity that may
be the limit already, and `ep_rb_can_write` counts up to the limit only while the region
is full. A run respects the limit exactly if every write finds the region full or of the
size of the limit, and is no longer than what the limit leaves.

## Main definitions

* `EpRb.room` — what the limit leaves.
* `WriteRespects`, `WriteFits` — one write, and when it respects the limit.
* `LimitRespected` — a run from `ep_rb_new`.
-/

namespace Youmenu.Eventpack

/-- The bytes that the limit leaves for the next write. -/
def EpRb.room (rb : EpRb) : ℤ := rb.limit - epRbCanRead rb

/-- What is asked of a write: `ep_rb_can_write` reports the room before it, and it takes
what fits into the room and does not let the region grow over the limit. -/
structure WriteRespects (rb : EpRb) (fresh : ℤ → UInt8) (data : List UInt8) : Prop where
  reported : epRbCanWrite rb = rb.room
  accepted : (epRbWrite fresh rb data data.length).2 = min (data.length : ℤ) rb.room
  capacity_le : (epRbWrite fresh rb data data.length).1.capacity ≤ rb.limit

/-- The region is full or of the size of the limit, and the write fits into the room. -/
def WriteFits (rb : EpRb) (data : List UInt8) : Prop :=
  (epRbCanRead rb = rb.capacity ∨ rb.capacity = rb.limit) ∧ (data.length : ℤ) ≤ rb.room

/-! ## One write -/

section Write

variable {rb : EpRb}

/-- Short of the limit the room is reported only by a full region. -/
theorem canWrite_eq_room_iff (h : rb.Valid) (hcap : rb.capacity ≤ rb.limit) :
    epRbCanWrite rb = rb.room ↔ epRbCanRead rb = rb.capacity ∨ rb.capacity = rb.limit := by
  have hle := h.canRead_le
  unfold epRbCanWrite EpRb.room
  simp only
  split_ifs with hfull
  · exact ⟨fun _ => .inl (by omega), fun _ => rfl⟩
  · omega

theorem writeRespects_iff (h : rb.Valid) (hcap : rb.capacity ≤ rb.limit) (fresh : ℤ → UInt8)
    (data : List UInt8) : WriteRespects rb fresh data ↔ WriteFits rb data := by
  obtain ⟨-, -, -, hgrown⟩ := epRbExpandLimit_spec fresh h data.length (by omega)
  obtain ⟨-, -, -, hcap', hcount⟩ := epRbWrite_spec fresh h data
  have hle := h.canRead_le
  have hnonneg := h.canRead_nonneg
  have hpos : 0 < rb.capacity := by have := h.head_nonneg; have := h.head_lt; omega
  rw [hgrown] at hcap' hcount
  constructor
  · rintro ⟨hreported, haccepted, hcapacity⟩
    refine ⟨(canWrite_eq_room_iff h hcap).mp hreported, ?_⟩
    rw [hcount] at haccepted
    unfold EpRb.room at haccepted ⊢
    split_ifs at haccepted <;> omega
  · rintro ⟨hfull, hfits⟩
    refine ⟨(canWrite_eq_room_iff h hcap).mpr hfull, ?_, ?_⟩
    · rw [hcount]
      unfold EpRb.room at hfits ⊢
      split_ifs <;> omega
    · rw [hcap']
      unfold EpRb.room at hfits
      split_ifs <;> omega

end Write

/-! ## Runs -/

/-- The buffer after some calls. -/
def rbAfter (capacity limit : ℤ) (ops : List RbOp) : EpRb :=
  ((RbRun.start capacity limit).steps ops).rb

/-- The capacity stays within the limit, and every write of the run respects it. -/
structure LimitRespected (capacity limit : ℤ) (ops : List RbOp) : Prop where
  capacity_le : ∀ before after, ops = before ++ after →
    (rbAfter capacity limit before).capacity ≤ limit
  accepted : ∀ before fresh data after, ops = before ++ .write fresh data :: after →
    (epRbWrite fresh (rbAfter capacity limit before) data data.length).2 =
      min (data.length : ℤ) (limit - epRbCanRead (rbAfter capacity limit before))
  reported : ∀ before fresh data after, ops = before ++ .write fresh data :: after →
    epRbCanWrite (rbAfter capacity limit before) =
      limit - epRbCanRead (rbAfter capacity limit before)

section Run

variable {capacity limit : ℤ}

theorem rbAfter_concat (before : List RbOp) (op : RbOp) :
    rbAfter capacity limit (before ++ [op]) =
      (((RbRun.start capacity limit).steps before).step op).rb := by
  simp [rbAfter, RbRun.steps]

theorem rbAfter_valid (hc : 0 < capacity) (hl : 0 < limit) (ops : List RbOp) :
    (rbAfter capacity limit ops).Valid :=
  (RbRun.Faithful.steps (s := RbRun.start capacity limit) ⟨epRbNew_valid hc hl, rfl⟩ ops).valid

/-- No call moves the limit. -/
theorem rbAfter_limit (hc : 0 < capacity) (hl : 0 < limit) (ops : List RbOp) :
    (rbAfter capacity limit ops).limit = limit := by
  induction ops using List.reverseRecOn with
  | nil => rfl
  | append_singleton before op ih =>
    have hv := rbAfter_valid hc hl before
    rw [rbAfter_concat]
    cases op with
    | read fresh n =>
      obtain ⟨-, -, -, -, -, hlimit⟩ := epRbRead_spec fresh hv (n := n) (by omega)
      exact hlimit.trans ih
    | write fresh data =>
      obtain ⟨-, -, hlimit, -, -⟩ := epRbWrite_spec fresh hv data
      exact hlimit.trans ih

/-- A run whose writes all fit does not grow over the limit. -/
theorem rbAfter_capacity_le (hc : 0 < capacity) (hcl : capacity ≤ limit) {ops : List RbOp}
    (hfits : ∀ before fresh data after, ops = before ++ .write fresh data :: after →
      WriteFits (rbAfter capacity limit before) data)
    (before after : List RbOp) (hops : ops = before ++ after) :
    (rbAfter capacity limit before).capacity ≤ limit := by
  have hl : 0 < limit := by omega
  induction before using List.reverseRecOn generalizing after with
  | nil => exact hcl
  | append_singleton before op ih =>
    have hops' : ops = before ++ op :: after := by rw [hops, List.append_assoc]; rfl
    have hcap := ih _ hops'
    have hv := rbAfter_valid hc hl before
    have hlimit := rbAfter_limit hc hl before
    rw [rbAfter_concat]
    cases op with
    | read fresh n =>
      obtain ⟨-, -, -, -, hsame, -⟩ := epRbRead_spec fresh hv (n := n) (by omega)
      exact hsame.le.trans hcap
    | write fresh data =>
      have hrespects := (writeRespects_iff hv (hcap.trans hlimit.ge) fresh data).mpr
        (hfits before fresh data after hops')
      exact hrespects.capacity_le.trans hlimit.le

/-- A run from `ep_rb_new` respects the limit if and only if each of its writes finds the
region full or of the size of the limit, and fits into what the limit leaves. -/
theorem limitRespected_iff (hc : 0 < capacity) (hcl : capacity ≤ limit) (ops : List RbOp) :
    LimitRespected capacity limit ops ↔
      ∀ before fresh data after, ops = before ++ .write fresh data :: after →
        WriteFits (rbAfter capacity limit before) data := by
  have hl : 0 < limit := by omega
  constructor
  · intro h before fresh data after hops
    have hlimit := rbAfter_limit hc hl before
    have hcap := h.capacity_le before _ hops
    refine (writeRespects_iff (rbAfter_valid hc hl before) (hcap.trans hlimit.ge) fresh data).mp
      ⟨?_, ?_, ?_⟩
    · rw [EpRb.room, hlimit]
      exact h.reported before fresh data after hops
    · rw [EpRb.room, hlimit]
      exact h.accepted before fresh data after hops
    · have hnext := h.capacity_le (before ++ [.write fresh data]) after
        (by rw [hops, List.append_assoc]; rfl)
      rw [rbAfter_concat] at hnext
      exact hnext.trans hlimit.ge
  · intro hfits
    have hcap := rbAfter_capacity_le hc hcl hfits
    have hrespects : ∀ before fresh data after, ops = before ++ .write fresh data :: after →
        WriteRespects (rbAfter capacity limit before) fresh data := by
      intro before fresh data after hops
      have hlimit := rbAfter_limit hc hl before
      exact (writeRespects_iff (rbAfter_valid hc hl before)
        ((hcap before _ hops).trans hlimit.ge) fresh data).mpr (hfits before fresh data after hops)
    refine ⟨hcap, ?_, ?_⟩
    · intro before fresh data after hops
      have haccepted := (hrespects before fresh data after hops).accepted
      rwa [EpRb.room, rbAfter_limit hc hl] at haccepted
    · intro before fresh data after hops
      have hreported := (hrespects before fresh data after hops).reported
      rwa [EpRb.room, rbAfter_limit hc hl] at hreported

end Run

/-- A region of the size of the limit that is written twice and read in between. -/
theorem limitRespected_world :
    LimitRespected 5 5
      [.write (fun _ => 0) [119, 111, 114], .read (fun _ => 0) 2,
        .write (fun _ => 0) [108, 100]] := by
  refine (limitRespected_iff (by decide) (by decide) _).mpr fun before fresh data after hops => ?_
  rcases before with _ | ⟨op₁, _ | ⟨op₂, _ | ⟨op₃, before⟩⟩⟩
  · obtain ⟨⟨-, rfl⟩, -⟩ := by simpa using hops
    exact ⟨.inr rfl, by decide⟩
  · simp at hops
  · obtain ⟨rfl, rfl, ⟨-, rfl⟩, -⟩ := by simpa using hops
    exact ⟨.inr rfl, by decide⟩
  · simp at hops

/-- Five bytes fill the region of the sample's test, and the next fifteen are all taken:
the region grows to twenty bytes. -/
theorem limit_overgrown :
    ¬ LimitRespected 5 15 [.write (fun _ => 0) [104, 101, 108, 108, 111],
      .write (fun _ => 0) (List.replicate 15 119)] := by
  intro h
  have hcap := h.capacity_le _ [] (List.append_nil _).symm
  exact absurd hcap (by decide)

end Youmenu.Eventpack
