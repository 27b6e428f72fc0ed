import Mathlib.Data.List.Basic

/-!
# Cipher block chaining

The chaining mode over an arbitrary block type: `xor` is any operation that is
undone by repeating it, and the block functions are arbitrary. Both directions
return the chaining value they leave behind.
-/

namespace Cbc

variable {β : Type*} (xor : β → β → β)

def encrypt (E : β → β) : β → List β → List β × β
  | iv, [] => ([], iv)
  | iv, b :: bs =>
    let c := E (xor b iv)
    let r := encrypt E c bs
    (c :: r.1, r.2)

def decrypt (D : β → β) : β → List β → List β × β
  | iv, [] => ([], iv)
  | iv, c :: cs =>
    let r := decrypt D c cs
    (xor (D c) iv :: r.1, r.2)

@[simp] theorem length_encrypt (E : β → β) (iv : β) (bs : List β) :
    (encrypt xor E iv bs).1.length = bs.length := by
  induction bs generalizing iv with
  | nil => rfl
  | cons b bs ih => simp [encrypt, ih]

@[simp] theorem length_decrypt (D : β → β) (iv : β) (cs : List β) :
    (decrypt xor D iv cs).1.length = cs.length := by
  induction cs generalizing iv with
  | nil => rfl
  | cons c cs ih => simp [decrypt, ih]

/-- Decryption restores the plaintext blocks; what follows the ciphertext only
affects what follows the plaintext. -/
theorem decrypt_encrypt_append {E D : β → β} (hD : ∀ b, D (E b) = b)
    (hxor : ∀ a b, xor (xor a b) b = a) (iv : β) (bs extra : List β) :
    (decrypt xor D iv ((encrypt xor E iv bs).1 ++ extra)).1.take bs.length = bs := by
  induction bs generalizing iv with
  | nil => rfl
  | cons b bs ih =>
    simp only [encrypt, decrypt, List.cons_append, List.length_cons, List.take_succ_cons, hD, hxor]
    rw [ih]

/-- Decryption of a front does not depend on what follows it. -/
theorem take_decrypt_append (D : β → β) (iv : β) (cs extra : List β) :
    (decrypt xor D iv (cs ++ extra)).1.take cs.length = (decrypt xor D iv cs).1 := by
  induction cs generalizing iv with
  | nil => rfl
  | cons c cs ih =>
    simp only [decrypt, List.cons_append, List.length_cons, List.take_succ_cons]
    rw [ih]

end Cbc
