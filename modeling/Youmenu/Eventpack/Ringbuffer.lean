import Youmenu.Lib.Circular

/-!
# The growing ring buffer of `ep_ringbuffer.c`

`head` and `tail` index a circular byte region; `wrap` is the only thing that
tells a full region from an empty one. The fast read path leaves `wrap` alone,
the slow path clears it, a write that fills the region sets it, and growth
drains the region through `ep_rb_read`.

The operations compute with mathematical integers, and there is memory for every
size that an `int` can hold. Where growth would go beyond an `int`, `ep_malloc` is
given a negative size and answers the null pointer, which nobody checks: `Outgrows`
says when, and `epRbTryWrite` is the write that the process does not survive then.
What a fresh allocation holds is not known, so every operation that allocates takes
it as the argument `fresh`. C's `%` truncates, hence `Int.tmod`; the sum in
`ep_rb_can_read` may leave the range of an `int` on its way, its result does not.

## Main definitions

* `epRbNew`, `epRbCanRead`, `epRbCanWrite`, `epRbRead`, `epRbExpandLimit`,
  `epRbWrite` — the source functions.
* `EpRb.Outgrows`, `epRbTryWrite` — where the sizes leave the range of an `int`.
* `EpRb.Valid`, `EpRb.unread` — the invariant, and the bytes still buffered.
* `RbRun` — a run of reads and writes with what they returned and accepted.
-/

namespace Youmenu.Eventpack

open Circular

/-- The scratch area of the slow read path; size `0` stands for the null pointer. -/
structure EpRbRetval where
  buffer : ℤ → UInt8
  size : ℤ

structure EpRb where
  buffer : ℤ → UInt8
  head : ℤ
  tail : ℤ
  wrap : Bool
  capacity : ℤ
  limit : ℤ
  retval : EpRbRetval

def epRbNew (capacity limit : ℤ) : EpRb where
  buffer := fun _ => 0
  head := 0
  tail := 0
  wrap := false
  capacity := capacity
  limit := limit
  retval := ⟨fun _ => 0, 0⟩

def epRbCanRead (rb : EpRb) : ℤ :=
  if rb.tail = rb.head then (if rb.wrap then rb.capacity else 0)
  else if rb.tail > rb.head then rb.tail - rb.head
  else rb.capacity + rb.tail - rb.head

def epRbCanWrite (rb : EpRb) : ℤ :=
  let canWrite := rb.capacity - epRbCanRead rb
  if canWrite = 0 ∧ rb.limit > rb.capacity then rb.limit - epRbCanRead rb else canWrite

/-- What `ep_rb_read` leaves behind: the buffer, the pointer stored in `*data`
(the memory it points to, `none` for null) and the returned count. -/
structure EpRbReadResult where
  rb : EpRb
  data : Option (ℤ → UInt8)
  count : ℤ

/-- The bytes a caller finds behind `*data`. -/
def EpRbReadResult.bytes (r : EpRbReadResult) : List UInt8 :=
  match r.data with
  | none => []
  | some p => cells p 0 r.count.toNat

def epRbRead (fresh : ℤ → UInt8) (rb : EpRb) (count : ℤ) : EpRbReadResult :=
  let count := min count (epRbCanRead rb)
  if count = 0 then ⟨rb, none, 0⟩
  -- no need to wrap: hand out a pointer into the region itself
  else if rb.capacity - rb.head > count then
    ⟨{ rb with head := (rb.head + count).tmod rb.capacity },
      some fun i => rb.buffer (rb.head + i), count⟩
  else
    let tailChunk := min count (rb.capacity - rb.head)
    let headChunk := count - tailChunk
    let old : EpRbRetval :=
      if rb.retval.size < tailChunk + headChunk then ⟨fresh, tailChunk + headChunk⟩ else rb.retval
    let head₁ := (rb.head + tailChunk).tmod rb.capacity
    let ret₁ := copyIn old.buffer 0 (cells rb.buffer rb.head tailChunk.toNat)
    let ret₂ := if tailChunk < count then
      copyIn ret₁ tailChunk (cells rb.buffer head₁ headChunk.toNat) else ret₁
    let head₂ := if tailChunk < count then (head₁ + headChunk).tmod rb.capacity else head₁
    ⟨{ rb with head := head₂, wrap := false, retval := ⟨ret₂, old.size⟩ }, some ret₂, count⟩

def epRbExpandLimit (fresh : ℤ → UInt8) (rb : EpRb) (count : ℤ) : EpRb :=
  let canWrite := rb.capacity - epRbCanRead rb
  if canWrite ≥ count then rb
  else
    let expand := min count rb.limit
    let r := epRbRead fresh rb (epRbCanRead rb)
    { r.rb with
      buffer := copyIn fresh 0 r.bytes
      head := 0
      capacity := r.rb.capacity + expand
      tail := r.count.tmod (r.rb.capacity + expand) }

/-- Returns the buffer and the number of bytes taken from `data`. -/
def epRbWrite (fresh : ℤ → UInt8) (rb : EpRb) (data : List UInt8) (count : ℤ) : EpRb × ℤ :=
  let rb := epRbExpandLimit fresh rb count
  let count := min count (epRbCanWrite rb)
  if count = 0 then (rb, count)
  else
    let tailChunk := min count (rb.capacity - rb.tail)
    let buf₁ := copyIn rb.buffer rb.tail (data.take tailChunk.toNat)
    let tail₁ := (rb.tail + tailChunk).tmod rb.capacity
    let headChunk := count - tailChunk
    let buf₂ := if tailChunk < count then
      copyIn buf₁ tail₁ ((data.drop tailChunk.toNat).take headChunk.toNat) else buf₁
    let tail₂ := if tailChunk < count then (tail₁ + headChunk).tmod rb.capacity else tail₁
    ({ rb with
        buffer := buf₂
        tail := tail₂
        wrap := if rb.head = tail₂ then true else rb.wrap }, count)

/-- `ep_rb_expand_limit` grows to a capacity that no `int` holds. -/
def EpRb.Outgrows (rb : EpRb) (count : ℤ) : Prop :=
  rb.capacity - epRbCanRead rb < count ∧ 2 ^ 31 ≤ rb.capacity + min count rb.limit

instance (rb : EpRb) (count : ℤ) : Decidable (rb.Outgrows count) :=
  inferInstanceAs (Decidable (_ ∧ _))

/-- `ep_rb_write` on `int` sizes. When the region outgrows an `int` the new one is the null
pointer: `memcpy` writes the unread bytes to it or, if there are none, is called by
`ep_rb_write` for as many bytes as the capacity, which has become negative. The process is
killed either way. -/
def epRbTryWrite (fresh : ℤ → UInt8) (rb : EpRb) (data : List UInt8) (count : ℤ) :
    Option (EpRb × ℤ) :=
  if rb.Outgrows count then none else some (epRbWrite fresh rb data count)

/-! ## The invariant -/

/-- A set `wrap` flag means that the free part, if any, lies between `tail` and
`head`: only the slow read path moves `head` below `tail` again, and it clears
the flag. -/
structure EpRb.Valid (rb : EpRb) : Prop where
  limit_pos : 0 < rb.limit
  head_nonneg : 0 ≤ rb.head
  head_lt : rb.head < rb.capacity
  tail_nonneg : 0 ≤ rb.tail
  tail_lt : rb.tail < rb.capacity
  wrap_le : rb.wrap = true → rb.tail ≤ rb.head

/-- The bytes written and not yet read, oldest first. -/
def EpRb.unread (rb : EpRb) : List UInt8 :=
  ring rb.buffer rb.capacity rb.head (epRbCanRead rb).toNat

theorem epRbNew_valid {capacity limit : ℤ} (hc : 0 < capacity) (hl : 0 < limit) :
    (epRbNew capacity limit).Valid :=
  ⟨hl, le_rfl, hc, le_rfl, hc, by simp [epRbNew]⟩

@[simp] theorem unread_epRbNew (capacity limit : ℤ) : (epRbNew capacity limit).unread = [] := rfl

namespace EpRb.Valid

variable {rb : EpRb}

theorem canRead_nonneg (h : rb.Valid) : 0 ≤ epRbCanRead rb := by
  have := h.head_nonneg; have := h.head_lt; have := h.tail_nonneg
  unfold epRbCanRead
  split_ifs <;> omega

theorem canRead_le (h : rb.Valid) : epRbCanRead rb ≤ rb.capacity := by
  have := h.head_nonneg; have := h.head_lt; have := h.tail_lt
  unfold epRbCanRead
  split_ifs <;> omega

/-- `ep_rb_can_read` is the number of buffered bytes. -/
theorem canRead_eq_length (h : rb.Valid) : epRbCanRead rb = rb.unread.length := by
  simp [EpRb.unread, h.canRead_nonneg]

/-- The write position is the read position moved over the unread bytes. -/
theorem tail_eq (h : rb.Valid) : rb.tail = (rb.head + epRbCanRead rb) % rb.capacity := by
  have hh := h.head_nonneg; have := h.head_lt; have := h.tail_nonneg; have := h.tail_lt
  have := h.canRead_nonneg; have := h.canRead_le
  rw [emod_of_lt_two (by omega) (by omega)]
  unfold epRbCanRead
  split_ifs <;> omega

end EpRb.Valid

/-- `ep_rb_can_read` recovers the distance from `head` to `tail`, provided that
`wrap` tells the two extreme distances apart. -/
theorem canRead_eq_of_tail {rb : EpRb} {k : ℤ} (h0 : 0 ≤ rb.head) (hc : rb.head < rb.capacity)
    (hk : 0 ≤ k) (hk' : k ≤ rb.capacity) (ht : rb.tail = (rb.head + k) % rb.capacity)
    (hempty : k = 0 → rb.wrap = false) (hfull : k = rb.capacity → rb.wrap = true) :
    epRbCanRead rb = k := by
  rw [emod_of_lt_two (by omega) (by omega)] at ht
  unfold epRbCanRead
  by_cases hz : k = 0
  · simp [hz] at ht
    simp [hempty hz, hz, ht, hc]
  · by_cases hf : k = rb.capacity
    · have : ¬ rb.head + k < rb.capacity := by omega
      simp [hf] at ht
      simp [hfull hf, hf]
      omega
    · split_ifs at ht ⊢ <;> omega

/-! ## One specification per operation -/

section Specs

variable {rb : EpRb} (fresh : ℤ → UInt8)

/-- Dropping `k` unread bytes from the front: what both read paths do to the
indices, whichever way they leave `wrap`. -/
theorem unread_advance (h : rb.Valid) {k : ℤ} (hk : 0 ≤ k) (hk' : k ≤ epRbCanRead rb)
    (rb' : EpRb) (hbuf : rb'.buffer = rb.buffer) (hcap : rb'.capacity = rb.capacity)
    (htail : rb'.tail = rb.tail) (hhead : rb'.head = (rb.head + k) % rb.capacity)
    (hempty : k = epRbCanRead rb → rb'.wrap = false)
    (hfull : k = 0 → epRbCanRead rb = rb.capacity → rb'.wrap = true) :
    epRbCanRead rb' = epRbCanRead rb - k ∧ rb'.unread = rb.unread.drop k.toNat := by
  have hcp : 0 < rb.capacity := by have := h.head_nonneg; have := h.head_lt; omega
  have hle := h.canRead_le
  have hcan : epRbCanRead rb' = epRbCanRead rb - k := by
    apply canRead_eq_of_tail
    · rw [hhead]; exact Int.emod_nonneg _ (by omega)
    · rw [hhead, hcap]; exact Int.emod_lt_of_pos _ hcp
    · omega
    · omega
    · rw [htail, hhead, hcap, h.tail_eq, Int.emod_add_emod]
      congr 1; omega
    · intro hz; exact hempty (by omega)
    · intro hf; exact hfull (by omega) (by omega)
  refine ⟨hcan, ?_⟩
  have hsplit : (epRbCanRead rb).toNat = k.toNat + (epRbCanRead rb - k).toNat := by omega
  have hcast : ((k.toNat : ℕ) : ℤ) = k := Int.toNat_of_nonneg hk
  unfold EpRb.unread
  rw [hsplit, ring_add, hbuf, hcap, hhead, hcan, hcast, List.drop_left' (by simp)]

/-- The first `k` unread bytes, as cells. -/
theorem unread_take {k : ℤ} (hk : 0 ≤ k) (hk' : k ≤ epRbCanRead rb) :
    rb.unread.take k.toNat = ring rb.buffer rb.capacity rb.head k.toNat := by
  have hsplit : (epRbCanRead rb).toNat = k.toNat + (epRbCanRead rb - k).toNat := by omega
  rw [EpRb.unread, hsplit, ring_add, List.take_left' (by simp)]

theorem EpRb.Valid.wrap_of_empty (h : rb.Valid) (hz : epRbCanRead rb = 0) : rb.wrap = false := by
  have := h.head_nonneg; have := h.head_lt; have := h.tail_nonneg; have := h.tail_lt
  unfold epRbCanRead at hz
  split_ifs at hz with ht hw
  · omega
  · simpa using hw
  · omega
  · omega

/-- Bytes and index of a read that does not reach the end of the region. -/
theorem epRbRead_fast {n : ℤ} (hz : min n (epRbCanRead rb) ≠ 0)
    (hf : rb.capacity - rb.head > min n (epRbCanRead rb)) :
    epRbRead fresh rb n =
      ⟨{ rb with head := (rb.head + min n (epRbCanRead rb)).tmod rb.capacity },
        some fun i => rb.buffer (rb.head + i), min n (epRbCanRead rb)⟩ := by
  simp only [epRbRead, if_neg hz, if_pos hf]

/-- Bytes and index of a read that reaches the end of the region: the pieces
before and after the end are joined in the scratch area. -/
theorem epRbRead_slow (h : rb.Valid) {n : ℤ} (hz : min n (epRbCanRead rb) ≠ 0)
    (hf : ¬ rb.capacity - rb.head > min n (epRbCanRead rb)) :
    (epRbRead fresh rb n).count = min n (epRbCanRead rb) ∧
    (epRbRead fresh rb n).bytes =
      ring rb.buffer rb.capacity rb.head (min n (epRbCanRead rb)).toNat ∧
    (epRbRead fresh rb n).rb =
      { rb with
        head := (rb.head + min n (epRbCanRead rb)) % rb.capacity
        wrap := false
        retval := (epRbRead fresh rb n).rb.retval } := by
  have h0 := h.head_nonneg; have hlt := h.head_lt; have hle := h.canRead_le
  generalize hk : min n (epRbCanRead rb) = k at hz hf ⊢
  have hkc : k ≤ epRbCanRead rb := by omega
  obtain ⟨a, ha⟩ : ∃ a : ℕ, rb.capacity - rb.head = a := ⟨_, (Int.toNat_of_nonneg (by omega)).symm⟩
  rw [ha] at hf
  have htc : min k (a : ℤ) = a := by omega
  have hwrap : (rb.head + a).tmod rb.capacity = 0 := by
    rw [show rb.head + a = rb.capacity by omega]; simp
  obtain ⟨b, hb⟩ : ∃ b : ℕ, k - a = b := ⟨_, (Int.toNat_of_nonneg (by omega)).symm⟩
  have hka : k.toNat = a + b := by omega
  have hring : ring rb.buffer rb.capacity rb.head (a + b) =
      cells rb.buffer rb.head a ++ cells rb.buffer 0 b :=
    ring_eq_cells_append _ h0 (by omega) (by omega)
  have hhead : (rb.head + k) % rb.capacity = (b : ℤ) % rb.capacity := by
    rw [show rb.head + k = b + rb.capacity by omega]; simp
  simp only [epRbRead, hk, if_neg hz, if_neg hf, htc, hwrap, ha, hb, Int.zero_add, true_and,
    EpRbReadResult.bytes, hka, hring, hhead, Int.toNat_natCast]
  by_cases hbz : b = 0
  · have hnot : ¬ (a : ℤ) < k := by omega
    constructor
    · simp only [if_neg hnot, hbz, Nat.add_zero, cells_zero, List.append_nil]
      exact cells_copyIn _ _ _ (by simp)
    · simp [if_neg hnot, hbz]
  · have hlt' : (a : ℤ) < k := by omega
    constructor
    · have := cells_copyIn_pair
        (if rb.retval.size < (a : ℤ) + b then (⟨fresh, a + b⟩ : EpRbRetval) else rb.retval).buffer
        0 (cells rb.buffer rb.head a) (cells rb.buffer 0 b)
      simpa [if_pos hlt'] using this
    · simp only [if_pos hlt']
      rw [Int.tmod_eq_emod_of_nonneg (by omega)]

/-- A read hands out the next `min n buffered` bytes and keeps the rest. -/
theorem epRbRead_spec (h : rb.Valid) {n : ℤ} (hn : 0 ≤ n) :
    (epRbRead fresh rb n).rb.Valid ∧
    (epRbRead fresh rb n).count = min n (epRbCanRead rb) ∧
    (epRbRead fresh rb n).bytes = rb.unread.take n.toNat ∧
    (epRbRead fresh rb n).rb.unread = rb.unread.drop n.toNat ∧
    (epRbRead fresh rb n).rb.capacity = rb.capacity ∧
    (epRbRead fresh rb n).rb.limit = rb.limit := by
  have h0 := h.head_nonneg; have hlt := h.head_lt
  have hc := h.canRead_nonneg; have hle := h.canRead_le
  -- reading `n` bytes is reading `k`, the smaller of `n` and what is buffered
  have htake : rb.unread.take n.toNat = rb.unread.take (min n (epRbCanRead rb)).toNat := by
    rw [List.take_eq_take_iff, ← Int.ofNat_inj]
    have := h.canRead_eq_length
    omega
  have hdrop : rb.unread.drop n.toNat = rb.unread.drop (min n (epRbCanRead rb)).toNat := by
    rw [← List.append_cancel_left_eq (rb.unread.take n.toNat), List.take_append_drop, htake,
      List.take_append_drop]
  rw [htake, hdrop]
  by_cases hz : min n (epRbCanRead rb) = 0
  · have hr : epRbRead fresh rb n = ⟨rb, none, 0⟩ := by simp only [epRbRead, if_pos hz]
    simp [hr, hz, h, EpRbReadResult.bytes]
  · by_cases hf : rb.capacity - rb.head > min n (epRbCanRead rb)
    · rw [epRbRead_fast fresh hz hf]
      generalize hk : min n (epRbCanRead rb) = k at hz hf ⊢
      have hmod : (rb.head + k).tmod rb.capacity = (rb.head + k) % rb.capacity :=
        Int.tmod_eq_emod_of_nonneg (by omega)
      have hsmall : (rb.head + k) % rb.capacity = rb.head + k :=
        Int.emod_eq_of_lt (by omega) (by omega)
      obtain ⟨-, hun⟩ := unread_advance h (k := k) (by omega) (by omega)
        { rb with head := (rb.head + k).tmod rb.capacity } rfl rfl rfl hmod
        (fun hall => by
          -- everything is read without reaching the end, so `tail` is above `head`
          have ht := h.tail_eq
          rw [← hall, hsmall] at ht
          by_contra hw
          have := h.wrap_le (by simpa using hw)
          omega)
        (fun hk0 _ => absurd hk0 hz)
      refine ⟨⟨h.limit_pos, ?_, ?_, h.tail_nonneg, h.tail_lt, ?_⟩, rfl, ?_, hun, rfl, rfl⟩
      · simp only [hmod, hsmall]; omega
      · simp only [hmod, hsmall]; omega
      · intro hw
        have := h.wrap_le hw
        simp only [hmod, hsmall]; omega
      · rw [unread_take (by omega) (by omega), ring_eq_cells _ h0 (by omega)]
        simp [EpRbReadResult.bytes, cells]
    · obtain ⟨hcount, hbytes, hrb⟩ := epRbRead_slow fresh h hz hf
      generalize epRbRead fresh rb n = r at hcount hbytes hrb ⊢
      generalize hk : min n (epRbCanRead rb) = k at hz hf hcount hbytes hrb ⊢
      obtain ⟨-, hun⟩ := unread_advance h (k := k) (by omega) (by omega) r.rb
        (by rw [hrb]) (by rw [hrb]) (by rw [hrb]) (by rw [hrb])
        (fun _ => by rw [hrb]) (fun hk0 _ => absurd hk0 hz)
      refine ⟨?_, hcount, ?_, hun, by rw [hrb], by rw [hrb]⟩
      · rw [hrb]
        exact ⟨h.limit_pos, Int.emod_nonneg _ (by omega), Int.emod_lt_of_pos _ (by omega),
          h.tail_nonneg, h.tail_lt, by simp⟩
      · rw [hbytes, unread_take (by omega) (by omega)]

/-- Moving the unread bytes to the start of a larger region keeps them. -/
theorem unread_grow (h : rb.Valid) {e : ℤ} (he : 0 < e) (rb' : EpRb)
    (hbuf : rb'.buffer = copyIn fresh 0 rb.unread) (hhead : rb'.head = 0)
    (htail : rb'.tail = epRbCanRead rb) (hcap : rb'.capacity = rb.capacity + e)
    (hwrap : rb'.wrap = false) (hlim : rb'.limit = rb.limit) :
    rb'.Valid ∧ rb'.unread = rb.unread := by
  have hc := h.canRead_nonneg; have hle := h.canRead_le; have hl := h.limit_pos
  have hlen : rb.unread.length = (epRbCanRead rb).toNat := by simp [EpRb.unread]
  have hcan : epRbCanRead rb' = epRbCanRead rb := by
    apply canRead_eq_of_tail (by omega) (by omega) hc (by omega) _ (fun _ => hwrap) (by omega)
    rw [htail, hhead, hcap, Int.zero_add, Int.emod_eq_of_lt hc (by omega)]
  refine ⟨⟨by omega, by omega, by omega, by omega, by omega, by simp [hwrap]⟩, ?_⟩
  rw [EpRb.unread, hcan, hhead, hcap, ring_eq_cells _ le_rfl (by omega), hbuf]
  exact cells_copyIn _ _ _ hlen

/-- Growth keeps the unread bytes; it adds `min count limit` to the capacity,
whatever the capacity already is. -/
theorem epRbExpandLimit_spec (h : rb.Valid) (count : ℤ) (hcount : 0 ≤ count) :
    (epRbExpandLimit fresh rb count).Valid ∧
    (epRbExpandLimit fresh rb count).unread = rb.unread ∧
    (epRbExpandLimit fresh rb count).limit = rb.limit ∧
    (epRbExpandLimit fresh rb count).capacity =
      if rb.capacity - epRbCanRead rb ≥ count then rb.capacity
      else rb.capacity + min count rb.limit := by
  unfold epRbExpandLimit
  by_cases hroom : rb.capacity - epRbCanRead rb ≥ count
  · simp [if_pos hroom, h]
  · have hc := h.canRead_nonneg; have hle := h.canRead_le; have hl := h.limit_pos
    obtain ⟨hv, hcnt, hbytes, hun, hcap, hlim⟩ := epRbRead_spec fresh h hc
    simp only [if_neg hroom]
    generalize epRbRead fresh rb (epRbCanRead rb) = r at hv hcnt hbytes hun hcap hlim ⊢
    have hlen : rb.unread.length = (epRbCanRead rb).toNat := by simp [EpRb.unread]
    rw [List.take_of_length_le (by omega)] at hbytes
    rw [List.drop_of_length_le (by omega)] at hun
    rw [min_self] at hcnt
    -- draining goes through the slow path when the region is full, so `wrap` is clear
    have hwrap : r.rb.wrap = false := hv.wrap_of_empty (by rw [hv.canRead_eq_length, hun]; rfl)
    have htail : r.count.tmod (r.rb.capacity + min count rb.limit) = epRbCanRead rb := by
      rw [Int.tmod_eq_emod_of_nonneg (by omega), hcnt, Int.emod_eq_of_lt hc (by omega)]
    obtain ⟨hv', hun'⟩ := unread_grow fresh h (e := min count rb.limit) (by omega)
      { r.rb with
        buffer := copyIn fresh 0 r.bytes, head := 0,
        capacity := r.rb.capacity + min count rb.limit,
        tail := r.count.tmod (r.rb.capacity + min count rb.limit) }
      (by rw [hbytes]) rfl htail (by rw [hcap]) hwrap hlim
    exact ⟨hv', hun', hlim, by simp only [hcap]⟩

/-- The copying part of a write, in at most two blocks behind `tail`: where the
new `tail` is, and what the circular view holds. -/
theorem ring_store (h : rb.Valid) (data : List UInt8) {n j : ℕ} (hn : epRbCanRead rb = n)
    (hroom : (n + j : ℤ) ≤ rb.capacity) (hlen : j ≤ data.length) (buf : ℤ → UInt8) (tail : ℤ)
    (hone : (j : ℤ) ≤ rb.capacity - rb.tail →
      buf = copyIn rb.buffer rb.tail (data.take j) ∧ tail = (rb.tail + j) % rb.capacity)
    (htwo : ∀ a b : ℕ, rb.tail + a = rb.capacity → j = a + b → 0 < b →
      buf = copyIn (copyIn rb.buffer rb.tail (data.take a)) 0 ((data.drop a).take b) ∧
        tail = b % rb.capacity) :
    tail = (rb.head + (n + j : ℕ)) % rb.capacity ∧
      ring buf rb.capacity rb.head (n + j) = rb.unread ++ data.take j := by
  have h0 := h.head_nonneg; have hlt := h.head_lt
  have ht0 := h.tail_nonneg; have htlt := h.tail_lt
  have htail := h.tail_eq
  rw [hn] at htail
  have hun : rb.unread = ring rb.buffer rb.capacity rb.head n := by
    rw [EpRb.unread, hn, Int.toNat_natCast]
  rw [hun]
  by_cases hfit : (j : ℤ) ≤ rb.capacity - rb.tail
  · obtain ⟨rfl, rfl⟩ := hone hfit
    have hj : (data.take j).length = j := by simp; omega
    have hring := ring_append (m := rb.buffer) (n := n) h0 hlt (data.take j) (by omega) (by omega)
    rw [← htail, hj] at hring
    refine ⟨?_, hring⟩
    rw [htail, Int.emod_add_emod]
    congr 1; push_cast; omega
  · obtain ⟨a, ha⟩ : ∃ a : ℕ, rb.capacity - rb.tail = a :=
      ⟨_, (Int.toNat_of_nonneg (by omega)).symm⟩
    obtain ⟨b, rfl⟩ : ∃ b : ℕ, j = a + b := ⟨j - a, by omega⟩
    obtain ⟨rfl, rfl⟩ := htwo a b (by omega) rfl (by omega)
    have hla : (data.take a).length = a := by simp; omega
    have hlb : ((data.drop a).take b).length = b := by simp; omega
    -- the first block ends exactly at the end of the region
    have hend : (rb.head + ((n + a : ℕ) : ℤ)) % rb.capacity = 0 := by
      rw [Nat.cast_add, ← Int.add_assoc, ← Int.emod_add_emod, ← htail,
        show rb.tail + (a : ℤ) = rb.capacity by omega, Int.emod_self]
    have h₁ := ring_append (m := rb.buffer) (n := n) h0 hlt (data.take a) (by omega) (by omega)
    have h₂ := ring_append (m := copyIn rb.buffer rb.tail (data.take a)) (n := n + a)
      h0 hlt ((data.drop a).take b) (by omega) (by omega)
    rw [← htail, hla] at h₁
    rw [hend, hlb, h₁] at h₂
    refine ⟨?_, ?_⟩
    · rw [show rb.head + ((n + (a + b) : ℕ) : ℤ) = rb.head + ((n + a : ℕ) : ℤ) + b by
        push_cast; omega, ← Int.emod_add_emod, hend, Int.zero_add]
    · rw [← Nat.add_assoc, h₂, List.append_assoc, List.take_add]

/-- A nonempty write sets `wrap` exactly when it fills the region. -/
theorem unread_store (h : rb.Valid) (data : List UInt8) {n j : ℕ} (hn : epRbCanRead rb = n)
    (hj : 0 < j) (hroom : (n + j : ℤ) ≤ rb.capacity) (rb' : EpRb)
    (hcap : rb'.capacity = rb.capacity) (hhead : rb'.head = rb.head) (hlim : rb'.limit = rb.limit)
    (htail : rb'.tail = (rb.head + (n + j : ℕ)) % rb.capacity)
    (hring : ring rb'.buffer rb.capacity rb.head (n + j) = rb.unread ++ data.take j)
    (hwrap : rb'.wrap = if rb.head = rb'.tail then true else rb.wrap) :
    rb'.Valid ∧ rb'.unread = rb.unread ++ data.take j := by
  have h0 := h.head_nonneg; have hlt := h.head_lt
  have ht0 := h.tail_nonneg; have htlt := h.tail_lt
  have hfull : rb.head = rb'.tail ↔ ((n + j : ℕ) : ℤ) = rb.capacity := by
    rw [htail, emod_of_lt_two (by omega) (by omega)]
    split_ifs <;> omega
  have hcan : epRbCanRead rb' = ((n + j : ℕ) : ℤ) := by
    apply canRead_eq_of_tail (by omega) (by omega) (by omega) (by omega) _ (by omega)
    · intro hf
      rw [hwrap, if_pos (hfull.mpr (by omega))]
    · rw [htail, hhead, hcap]
  have htail_nonneg : 0 ≤ rb'.tail := by rw [htail]; exact Int.emod_nonneg _ (by omega)
  have htail_lt : rb'.tail < rb.capacity := by
    rw [htail]; exact Int.emod_lt_of_pos _ (by omega)
  refine ⟨⟨by have := h.limit_pos; omega, by omega, by omega, htail_nonneg, by omega, ?_⟩, ?_⟩
  · intro hw
    rw [hwrap] at hw
    split_ifs at hw with heq
    · omega
    · -- a stale flag: the old free part lay between `tail` and `head`, and still does
      have hnf : ((n + j : ℕ) : ℤ) ≠ rb.capacity := fun hf => heq (hfull.mpr hf)
      have hle := h.wrap_le hw
      have hdist : (n : ℤ) = rb.capacity + rb.tail - rb.head := by
        unfold epRbCanRead at hn
        split_ifs at hn <;> omega
      rw [htail, emod_of_lt_two (by omega) (by omega), hhead]
      split_ifs <;> omega
  · rw [EpRb.unread, hcan, Int.toNat_natCast, hcap, hhead, hring]

/-- A write takes as many bytes as fit after growth and appends them. -/
theorem epRbWrite_spec (h : rb.Valid) (data : List UInt8) :
    (epRbWrite fresh rb data data.length).1.Valid ∧
    (epRbWrite fresh rb data data.length).1.unread =
      rb.unread ++ data.take (epRbWrite fresh rb data data.length).2.toNat ∧
    (epRbWrite fresh rb data data.length).1.limit = rb.limit ∧
    (epRbWrite fresh rb data data.length).1.capacity =
      (epRbExpandLimit fresh rb data.length).capacity ∧
    (epRbWrite fresh rb data data.length).2 = min (data.length : ℤ)
      ((epRbExpandLimit fresh rb data.length).capacity - epRbCanRead rb) := by
  obtain ⟨hv, hun, hlim, hcap⟩ := epRbExpandLimit_spec fresh h data.length (by omega)
  have hcan : epRbCanRead (epRbExpandLimit fresh rb data.length) = epRbCanRead rb := by
    rw [hv.canRead_eq_length, hun, ← h.canRead_eq_length]
  have hl := h.limit_pos; have hle := h.canRead_le
  unfold epRbWrite
  generalize epRbExpandLimit fresh rb data.length = rb₁ at hv hun hlim hcap hcan ⊢
  have hc := hv.canRead_nonneg; have hle₁ := hv.canRead_le
  have h0 := hv.head_nonneg; have ht0 := hv.tail_nonneg; have htlt := hv.tail_lt
  -- after growth there is room for one byte, so `ep_rb_can_write` is the room in the region
  have hmin : min (data.length : ℤ) (epRbCanWrite rb₁) =
      min (data.length : ℤ) (rb₁.capacity - epRbCanRead rb) := by
    unfold epRbCanWrite
    simp only [hcan]
    split_ifs at hcap ⊢ <;> omega
  simp only [hmin]
  by_cases hz : min (data.length : ℤ) (rb₁.capacity - epRbCanRead rb) = 0
  · simp [hz, hv, hun, hlim]
  · obtain ⟨n, hn⟩ : ∃ n : ℕ, epRbCanRead rb₁ = n := ⟨_, (Int.toNat_of_nonneg hc).symm⟩
    obtain ⟨j, hj⟩ : ∃ j : ℕ, min (data.length : ℤ) (rb₁.capacity - epRbCanRead rb) = j :=
      ⟨_, (Int.toNat_of_nonneg (by omega)).symm⟩
    rw [hj] at hz
    have hroom : (n + j : ℤ) ≤ rb₁.capacity := by omega
    simp only [hj, if_neg hz, Int.toNat_natCast]
    generalize htail : (if min (j : ℤ) (rb₁.capacity - rb₁.tail) < j then
      ((rb₁.tail + min (j : ℤ) (rb₁.capacity - rb₁.tail)).tmod rb₁.capacity +
        (j - min (j : ℤ) (rb₁.capacity - rb₁.tail))).tmod rb₁.capacity
      else (rb₁.tail + min (j : ℤ) (rb₁.capacity - rb₁.tail)).tmod rb₁.capacity) = tail
    generalize hbuf : (if min (j : ℤ) (rb₁.capacity - rb₁.tail) < j then
      copyIn (copyIn rb₁.buffer rb₁.tail
          (data.take (min (j : ℤ) (rb₁.capacity - rb₁.tail)).toNat))
        ((rb₁.tail + min (j : ℤ) (rb₁.capacity - rb₁.tail)).tmod rb₁.capacity)
        ((data.drop (min (j : ℤ) (rb₁.capacity - rb₁.tail)).toNat).take
          (j - min (j : ℤ) (rb₁.capacity - rb₁.tail)).toNat)
      else copyIn rb₁.buffer rb₁.tail
        (data.take (min (j : ℤ) (rb₁.capacity - rb₁.tail)).toNat)) = buf
    obtain ⟨htail', hring⟩ := ring_store hv data hn hroom (by omega) buf tail
      (fun hfit => by
        have hm : min (j : ℤ) (rb₁.capacity - rb₁.tail) = j := by omega
        simp only [hm, lt_irrefl, if_false, Int.toNat_natCast] at htail hbuf
        exact ⟨hbuf.symm, by rw [← htail, Int.tmod_eq_emod_of_nonneg (by omega)]⟩)
      (fun a b ha hab hb => by
        have hm : min (j : ℤ) (rb₁.capacity - rb₁.tail) = a := by omega
        have hlt : (a : ℤ) < j := by omega
        have hsub : (j : ℤ) - a = b := by omega
        simp only [hm, if_pos hlt, hsub, ha, Int.tmod_self, Int.zero_add,
          Int.toNat_natCast] at htail hbuf
        exact ⟨hbuf.symm, by rw [← htail, Int.tmod_eq_emod_of_nonneg (by omega)]⟩)
    obtain ⟨hv', hun'⟩ := unread_store hv data hn (by omega) hroom
      { rb₁ with
        buffer := buf, tail := tail, wrap := if rb₁.head = tail then true else rb₁.wrap }
      rfl rfl rfl htail' hring rfl
    exact ⟨hv', by rw [hun', hun], hlim, trivial, trivial⟩

/-- A chunk within the limit is taken whole. -/
theorem epRbWrite_all (h : rb.Valid) (data : List UInt8) (hlim : (data.length : ℤ) ≤ rb.limit) :
    (epRbWrite fresh rb data data.length).2 = data.length ∧
    (epRbWrite fresh rb data data.length).1.unread = rb.unread ++ data := by
  obtain ⟨-, -, -, hcap⟩ := epRbExpandLimit_spec fresh h data.length (by omega)
  obtain ⟨-, hun, -, -, hcount⟩ := epRbWrite_spec fresh h data
  have hle := h.canRead_le
  have hall : (epRbWrite fresh rb data data.length).2 = data.length := by
    rw [hcount, hcap]
    split_ifs <;> omega
  refine ⟨hall, ?_⟩
  rw [hun, hall, Int.toNat_natCast, List.take_length]

end Specs

/-! ## Runs of reads and writes -/

/-- One call on a ring buffer, with what the allocator hands out during it. -/
inductive RbOp where
  | read (fresh : ℤ → UInt8) (n : ℕ)
  | write (fresh : ℤ → UInt8) (data : List UInt8)

/-- A ring buffer together with the history of its calls: all bytes returned by
reads, and all prefixes that writes reported as accepted. -/
structure RbRun where
  rb : EpRb
  returned : List UInt8
  accepted : List UInt8

def RbRun.start (capacity limit : ℤ) : RbRun := ⟨epRbNew capacity limit, [], []⟩

def RbRun.step (s : RbRun) : RbOp → RbRun
  | .read fresh n =>
    let r := epRbRead fresh s.rb n
    ⟨r.rb, s.returned ++ r.bytes, s.accepted⟩
  | .write fresh data =>
    let w := epRbWrite fresh s.rb data data.length
    ⟨w.1, s.returned, s.accepted ++ data.take w.2.toNat⟩

def RbRun.steps (s : RbRun) (ops : List RbOp) : RbRun := ops.foldl RbRun.step s

/-- Nothing is lost, duplicated or reordered. -/
structure RbRun.Faithful (s : RbRun) : Prop where
  valid : s.rb.Valid
  history : s.returned ++ s.rb.unread = s.accepted

theorem RbRun.Faithful.step {s : RbRun} (h : s.Faithful) (op : RbOp) : (s.step op).Faithful := by
  cases op with
  | read fresh n =>
    obtain ⟨hv, -, hbytes, hun, -, -⟩ := epRbRead_spec fresh h.valid (n := n) (by omega)
    refine ⟨hv, ?_⟩
    simp only [RbRun.step, hbytes, hun, List.append_assoc, List.take_append_drop, h.history]
  | write fresh data =>
    obtain ⟨hv, hun, -, -, -⟩ := epRbWrite_spec fresh h.valid data
    refine ⟨hv, ?_⟩
    simp only [RbRun.step, hun, ← List.append_assoc, h.history]

theorem RbRun.Faithful.steps {s : RbRun} (h : s.Faithful) (ops : List RbOp) :
    (s.steps ops).Faithful := by
  induction ops generalizing s with
  | nil => exact h
  | cons op ops ih => exact ih (h.step op)

/-- The ring buffer refines a byte queue, over every run from `ep_rb_new`. -/
theorem epRb_refines_fifo {capacity limit : ℤ} (hc : 0 < capacity) (hl : 0 < limit)
    (ops : List RbOp) :
    let s := (RbRun.start capacity limit).steps ops
    s.returned ++ s.rb.unread = s.accepted ∧
    epRbCanRead s.rb = s.rb.unread.length ∧
    (0 ≤ s.rb.head ∧ s.rb.head < s.rb.capacity) ∧
    (0 ≤ s.rb.tail ∧ s.rb.tail < s.rb.capacity) ∧
    (∀ fresh (n : ℕ), (epRbRead fresh s.rb n).count = min (n : ℤ) s.rb.unread.length ∧
      (epRbRead fresh s.rb n).bytes = s.rb.unread.take n ∧
      (epRbRead fresh s.rb n).rb.unread = s.rb.unread.drop n) ∧
    ∀ fresh data, 0 ≤ (epRbWrite fresh s.rb data data.length).2 ∧
      (epRbWrite fresh s.rb data data.length).2 ≤ data.length := by
  intro s
  have hs : s.Faithful :=
    RbRun.Faithful.steps (s := RbRun.start capacity limit) ⟨epRbNew_valid hc hl, rfl⟩ ops
  have hv := hs.valid
  refine ⟨hs.history, hv.canRead_eq_length, ⟨hv.head_nonneg, hv.head_lt⟩,
    ⟨hv.tail_nonneg, hv.tail_lt⟩, ?_, ?_⟩
  · intro fresh n
    obtain ⟨-, hcount, hbytes, hun, -, -⟩ := epRbRead_spec fresh hv (n := n) (by omega)
    exact ⟨by rw [hcount, hv.canRead_eq_length], by simpa using hbytes, by simpa using hun⟩
  · intro fresh data
    obtain ⟨-, -, -, hcap⟩ := epRbExpandLimit_spec fresh hv data.length (by omega)
    obtain ⟨-, -, -, -, hcount⟩ := epRbWrite_spec fresh hv data
    have := hv.canRead_le; have := hv.limit_pos
    rw [hcount, hcap]
    split_ifs <;> omega

/-- The first calls of the sample's ring buffer test: two five-byte writes into a
five-byte region, then a five-byte read. -/
theorem epRb_refines_fifo_hello :
    let s := (RbRun.start 5 15).steps
      [.write (fun _ => 0) [104, 101, 108, 108, 111], .write (fun _ => 0) [119, 111, 114, 108, 100],
        .read (fun _ => 0) 5]
    s.returned = [104, 101, 108, 108, 111] ∧ s.returned ++ s.rb.unread = s.accepted :=
  ⟨by decide, (epRb_refines_fifo (by decide) (by decide) _).1⟩

end Youmenu.Eventpack
