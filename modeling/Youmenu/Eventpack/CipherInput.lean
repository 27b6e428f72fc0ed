import Youmenu.Eventpack.Legible

/-!
# The bytes that go through the cipher

A buffer is allocated in whole blocks, and `ep_crypt_aes` takes a multiple of the block
size that is larger than what it is given: from a buffer that is full to the last block it
takes one block too many. A ciphertext is always such a buffer.

## Main definitions

* `cryptInput` — the number of bytes that `ep_crypt_aes` reads.
* `Obtained` — the buffers of the program, with the sizes of their chunks.
-/

namespace Youmenu.Eventpack

open Circular

/-- The number of bytes that `ep_crypt_aes` takes from its input; it takes none if there
is no memory for the output. -/
def cryptInput (inSize : ℤ) : ℤ :=
  if 0 < cryptLen inSize ∧ cryptLen inSize ≤ intMax then cryptLen inSize else 0

/-- A buffer that comes from one of the three functions, and the size that this function
has passed to `ep_malloc` for the chunk. -/
inductive Obtained (bz : Bz2) : EpBuffer → ℤ → Prop
  | new {fresh ptr : ℤ → UInt8} {size : ℤ} {b : EpBuffer}
      (h : epBufferNew fresh ptr size = some b) : Obtained bz b (epAlignSize size)
  | compress {fresh : ℤ → UInt8} {b c : EpBuffer} (h : epBufferCompress bz fresh b = some c) :
      Obtained bz c (epAlignSize (b.used * 101 / 100 + 600))
  | decompress {fresh : ℤ → UInt8} {b d : EpBuffer} {orignalSize : ℤ}
      (h : epBufferDecompress bz fresh b orignalSize = some d) :
      Obtained bz d (epAlignSize orignalSize)

/-! ## What the cipher reads -/

theorem sixteen_dvd_cryptLen (inSize : ℤ) : cryptLen inSize % 16 = 0 := by
  unfold cryptLen
  split_ifs with h
  · rw [Int.tmod_eq_emod] at h
    split_ifs at h <;> omega
  · omega

/-! ## Whole blocks -/

theorem epAlignSize_mod (x : ℤ) : epAlignSize x % 16 = 0 := by
  unfold epAlignSize
  omega

/-- The used part lies in the chunk, which is made of whole blocks. -/
theorem Obtained.within {bz : Bz2} {b : EpBuffer} {allocated : ℤ} (h : Obtained bz b allocated) :
    allocated % 16 = 0 ∧ b.used ≤ allocated ∧ allocated ≤ intMax := by
  cases h with
  | @new fresh ptr size _ h =>
    have hfits := (epBufferNew_isSome_iff fresh ptr size).mp (by rw [h]; rfl)
    have hused : b.used = size := by
      have := (epBufferNew_holds h).used_eq
      simp at this
      omega
    refine ⟨epAlignSize_mod size, hused ▸ le_epAlignSize size, ?_⟩
    unfold epAlignSize intMax
    omega
  | @compress fresh src _ h =>
    unfold epBufferCompress epCompress at h
    cases hm : epMalloc fresh (epAlignSize (src.used * 101 / 100 + 600)) with
    | none => simp [hm] at h
    | some dest =>
      obtain ⟨-, -, hfit⟩ := epMalloc_eq_some hm
      simp only [hm, Option.some.injEq] at h
      subst h
      exact ⟨epAlignSize_mod _, min_le_right _ _, hfit⟩
  | @decompress fresh src _ orignalSize h =>
    unfold epBufferDecompress epDecompress at h
    cases hm : epMalloc fresh (epAlignSize orignalSize) with
    | none => simp [hm] at h
    | some dest =>
      obtain ⟨-, -, hfit⟩ := epMalloc_eq_some hm
      have hused : b.used = orignalSize := by
        simp only [hm] at h
        split at h
        · cases h
        · cases h
          rfl
      exact ⟨epAlignSize_mod _, hused ▸ le_epAlignSize _, hfit⟩

/-- `ep_buffer_encrypt` stays in the chunk exactly if the last block has room for a byte. -/
theorem cryptInput_le_iff {allocated used : ℤ} (hmod : allocated % 16 = 0) (hpos : 1 ≤ used)
    (hle : used ≤ allocated) (hfit : allocated ≤ intMax) :
    cryptInput used ≤ allocated ↔ used < allocated ∨ used = 2 ^ 31 - 16 := by
  unfold cryptInput
  rw [cryptLen_eq (by omega)]
  unfold intMax at hfit ⊢
  split_ifs <;> omega

/-- For every buffer of the program: `ep_buffer_encrypt` reads within its chunk if and only
if the used part is smaller than the chunk, or the ciphertext is too large to be allocated;
and `ep_buffer_decrypt` reads within the chunk of a received ciphertext only in the second
case. -/
theorem cryptInput_within (bz : Bz2) :
    (∀ {b : EpBuffer} {allocated : ℤ}, Obtained bz b allocated → 1 ≤ b.used →
      (cryptInput b.used ≤ allocated ↔ b.used < allocated ∨ b.used = 2 ^ 31 - 16)) ∧
    ∀ {fresh ptr : ℤ → UInt8} {inSize : ℤ} {b : EpBuffer}, 1 ≤ inSize →
      epBufferNew fresh ptr (cryptLen inSize) = some b →
      (cryptInput b.used ≤ epAlignSize (cryptLen inSize) ↔ b.used = 2 ^ 31 - 16) := by
  constructor
  · intro b allocated h hpos
    obtain ⟨hmod, hle, hfit⟩ := h.within
    exact cryptInput_le_iff hmod hpos hle hfit
  · intro fresh ptr inSize b hpos h
    have hfits := (epBufferNew_isSome_iff fresh ptr (cryptLen inSize)).mp (by rw [h]; rfl)
    have hused : b.used = cryptLen inSize := by
      have := (epBufferNew_holds h).used_eq
      simp at this
      omega
    have hmod := sixteen_dvd_cryptLen inSize
    have hobtained : Obtained bz b _ := .new h
    obtain ⟨hmod', hle, hfit⟩ := hobtained.within
    -- a ciphertext fills its last block
    have hfull : epAlignSize (cryptLen inSize) = cryptLen inSize := by
      unfold epAlignSize
      omega
    have hiff := cryptInput_le_iff hmod' (by omega) hle hfit
    rw [hiff, hused, hfull]
    simp

/-- A buffer of fifteen bytes leaves room in its block. -/
theorem cryptInput_within_fifteen :
    ∃ b, epBufferNew (fun _ => 0) (fun _ => 65) 15 = some b ∧ cryptInput b.used ≤ epAlignSize 15 :=
  ⟨_, rfl, ((cryptInput_within storedBz2).1 (.new rfl) (by decide)).mpr (.inl (by decide))⟩

/-- For sixteen bytes, and for the ciphertext of fifteen, the cipher reads thirty-two bytes
of a chunk of sixteen. -/
theorem cryptInput_overruns :
    ¬ ((∀ (bz : Bz2) (b : EpBuffer) (allocated : ℤ), Obtained bz b allocated → 1 ≤ b.used →
        cryptInput b.used ≤ allocated) ∨
      ∀ (fresh ptr : ℤ → UInt8) (inSize : ℤ) (b : EpBuffer), 1 ≤ inSize →
        epBufferNew fresh ptr (cryptLen inSize) = some b →
        cryptInput b.used ≤ epAlignSize (cryptLen inSize)) := by
  rintro (hencrypt | hdecrypt)
  · have hnew : Obtained storedBz2 ⟨copyIn (fun _ => 0) 0 (cells (fun _ => 65) 0 16), 16, 16⟩ 16 :=
      @Obtained.new storedBz2 (fun _ => 0) (fun _ => 65) 16 _ rfl
    exact absurd (hencrypt _ _ _ hnew (by decide)) (by decide)
  · exact absurd (hdecrypt (fun _ => 0) (fun _ => 65) 15 _ (by decide) rfl) (by decide)

end Youmenu.Eventpack
