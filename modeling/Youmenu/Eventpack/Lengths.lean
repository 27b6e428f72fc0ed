import Youmenu.Eventpack.Cert

/-!
# The lengths that a frame declares

Three lengths come with a frame: the header says how long the body is before encryption and
before compression, and a document starts with its own length. `ep_decompress` compares the
one it is given with what it has produced. The others are taken as they are: `ep_buffer_decrypt`
sets the used length to the one from the header, and `ep_pack_create` copies as many bytes as
the document asks for, or ends the process if it asks for a negative number.

## Main definitions

* `Dispatched` — a frame as `ep_io_enqueue` hands it to a worker.
* `handlerCalls` — the handlers that `ep_io_processor` calls for it.
* `LengthsKept` — no length that is trusted is larger than what is there.
* `HonestLengths` — the frame itself declares no such length.
-/

namespace Youmenu.Eventpack

open Bytes Circular

/-- A frame with a body of as many bytes as its header says, or without one. -/
def Dispatched (task : EpIoTask) : Prop :=
  match task.input with
  | none => task.shell.shellSize = 0
  | some body => ∃ fresh ptr, epBufferNew fresh ptr task.shell.shellSize.toInt = some body

/-! ## What is declared, and what is obtained -/

/-- The length of the document in a buffer, by its first four bytes. -/
def EpBuffer.declared (b : EpBuffer) : ℤ := (BitVec.ofNat 32 (word 4 (cells b.chunk 0 4))).toInt

/-- The body is encrypted, for a receiver of the role. -/
abbrev EpShell.Encrypted (shell : EpShell) (refor : EpIoRefor) : Prop :=
  shell.proto.cryptOf refor.peer = cryptTypeEncrypt

/-- The body is compressed, for a receiver of the role. -/
abbrev EpShell.Compressed (shell : EpShell) (refor : EpIoRefor) : Prop :=
  shell.proto.compressOf refor.peer = compressTypeCompress

/-- The length of the document's buffer by the header. -/
def EpShell.textSize (shell : EpShell) (refor : EpIoRefor) : ℤ :=
  if shell.Compressed refor then shell.packSize.toInt
  else if shell.Encrypted refor then shell.decryptSize.toInt
  else shell.shellSize.toInt

/-- The number of bytes that decryption and decompression produce. The decompression fails
unless it produces as many as the header says. -/
def EpShell.obtained (shell : EpShell) (refor : EpIoRefor) : ℤ :=
  if shell.Compressed refor then shell.packSize.toInt
  else if shell.Encrypted refor then cryptLen shell.shellSize.toInt
  else shell.shellSize.toInt

section Lengths

variable (aes : AesCipher) (bz : Bz2) (heap : ℕ → ℤ → UInt8) (ioMgr : EpIoMgr) (task : EpIoTask)

/-- The calls that `ep_io_processor` makes through the dispatch table; `none` if it makes the
process exit. -/
def handlerCalls : Option (List (Category × ℤ × Option Bson)) :=
  (epIoProcessor aes bz heap (fun _ => ioMgr)
    (fun calls category fd pack => some (calls ++ [(category, fd, pack)], none)) [] task).map (·.1)

/-- The body after `ep_io_recombine_original`. -/
def openedBody (body : EpBuffer) : Option EpBuffer :=
  (epIoRecombineOriginal aes bz heap ioMgr task.fd task.shell body).2

structure LengthsKept : Prop where
  decrypt : ∀ body d, task.input = some body → task.shell.Encrypted ioMgr.refor →
    recombineDecrypt aes heap ioMgr task.fd task.shell body = some d →
    0 < d.used ∧ d.used ≤ d.capacity
  decompress : ∀ body d o, task.input = some body → task.shell.Compressed ioMgr.refor →
    recombineDecrypt aes heap ioMgr task.fd task.shell body = some d →
    recombineDecompress bz heap ioMgr task.shell d = some o →
    ∃ plain, bz.decompress d.bytes = some plain ∧ 0 < o.used ∧ o.used ≤ plain.length
  create : ∀ body o p, task.input = some body → openedBody aes bz heap ioMgr task body = some o →
    o.createPack = some (some p) → p.dataSize ≤ o.used
  call : handlerCalls aes bz heap ioMgr task = some [] ∨
    ∃ pack, handlerCalls aes bz heap ioMgr task =
        some [(⟨task.shell.proto.category⟩, task.fd, pack)] ∧
      ∀ p, pack = some p → 5 ≤ p.dataSize ∧ p.dataSize ≤ task.shell.obtained ioMgr.refor
  handshake : ioMgr.refor = .server → ∀ calls, handlerCalls aes bz heap ioMgr task = some calls →
    (categoryInternalKey, task.fd, none) ∉ calls

structure HonestLengths : Prop where
  decrypt : ∀ body key, task.input = some body → task.shell.Encrypted ioMgr.refor →
    epIoGetAes ioMgr task.fd = some key → cryptLen task.shell.shellSize.toInt ≤ intMax →
    0 < task.shell.decryptSize.toInt ∧
      task.shell.decryptSize.toInt ≤ cryptLen task.shell.shellSize.toInt
  document : ∀ body o, task.input = some body → openedBody aes bz heap ioMgr task body = some o →
    o.chunk 0 ≠ 0 → 0 < task.shell.textSize ioMgr.refor →
    5 ≤ o.declared ∧ o.declared ≤ task.shell.textSize ioMgr.refor
  handshake : ioMgr.refor = .server → task.input = none →
    task.shell.proto.category ≠ categoryInternalKey.toBitVec

end Lengths

/-! ## One lemma per stage -/

section Stages

variable {aes : AesCipher} {bz : Bz2} {heap : ℕ → ℤ → UInt8} {ioMgr : EpIoMgr} {task : EpIoTask}
  {body d o : EpBuffer}

theorem Dispatched.body_used (h : Dispatched task) (hbody : task.input = some body) :
    body.used = task.shell.shellSize.toInt ∧ 0 < body.used := by
  unfold Dispatched at h
  rw [hbody] at h
  obtain ⟨fresh, ptr, hnew⟩ := h
  have hpos := ((epBufferNew_isSome_iff _ _ _).mp (by rw [hnew]; rfl)).1
  have hused := (epBufferNew_holds hnew).used_eq
  rw [length_cells, Int.toNat_of_nonneg hpos.le] at hused
  exact ⟨hused, hused ▸ hpos⟩

/-- A buffer that has been decrypted: the length of the header, in an area of whole blocks. -/
theorem recombineDecrypt_encrypted {shell : EpShell} {fd : ℤ} (he : shell.Encrypted ioMgr.refor)
    (h : recombineDecrypt aes heap ioMgr fd shell body = some d) :
    (∃ key, epIoGetAes ioMgr fd = some key) ∧ cryptLen body.used ≤ intMax ∧
      d.used = shell.decryptSize.toInt ∧ d.capacity = cryptLen body.used := by
  unfold recombineDecrypt at h
  rw [if_pos he] at h
  cases hkey : epIoGetAes ioMgr fd with
  | none => simp [hkey] at h
  | some key =>
    rw [hkey] at h
    simp only [epBufferDecrypt, epCryptAes] at h
    cases hm : epMalloc (heap 0) (cryptLen body.used) with
    | none => simp [hm] at h
    | some out =>
      obtain ⟨-, -, hfit⟩ := epMalloc_eq_some hm
      simp only [hm, Option.some.injEq] at h
      subst h
      exact ⟨⟨key, rfl⟩, hfit, rfl, rfl⟩

/-- The other way round: with a key and the memory the decryption goes through. -/
theorem recombineDecrypt_exists {shell : EpShell} {fd : ℤ} {key : EpAesKey}
    (he : shell.Encrypted ioMgr.refor) (hkey : epIoGetAes ioMgr fd = some key)
    (hpos : 0 < body.used) (hfit : cryptLen body.used ≤ intMax) :
    ∃ d, recombineDecrypt aes heap ioMgr fd shell body = some d := by
  have hlen := cryptLen_eq hpos.le
  unfold recombineDecrypt
  simp only [if_pos (show shell.proto.cryptOf ioMgr.refor.peer = cryptTypeEncrypt from he), hkey,
    epBufferDecrypt, epCryptAes, epMalloc_of_fits (heap 0) _ (by omega) hfit]
  exact ⟨_, rfl⟩

theorem recombineDecrypt_plain {shell : EpShell} {fd : ℤ} (he : ¬ shell.Encrypted ioMgr.refor)
    (h : recombineDecrypt aes heap ioMgr fd shell body = some d) : d = body := by
  unfold recombineDecrypt at h
  rw [if_neg he] at h
  exact (Option.some.inj h).symm

/-- `ep_decompress` does not take the length of the header on trust. -/
theorem recombineDecompress_compressed {shell : EpShell} (hc : shell.Compressed ioMgr.refor)
    (h : recombineDecompress bz heap ioMgr shell d = some o) :
    o.used = shell.packSize.toInt ∧
      ∃ plain, bz.decompress d.bytes = some plain ∧ 0 < o.used ∧ o.used = plain.length := by
  unfold recombineDecompress epBufferDecompress epDecompress at h
  rw [if_pos hc] at h
  cases hm : epMalloc (heap 1) (epAlignSize shell.packSize.toInt) with
  | none => simp [hm] at h
  | some dest =>
    obtain ⟨-, hpos, -⟩ := epMalloc_eq_some hm
    have hbytes : cells d.chunk 0 d.used.toNat = d.bytes := rfl
    rw [hm, hbytes] at h
    cases hplain : bz.decompress d.bytes with
    | none => simp [hplain] at h
    | some plain =>
      simp only [hplain] at h
      by_cases hlen : shell.packSize.toInt = plain.length
      · simp only [if_pos hlen, Option.some.injEq] at h
        subst h
        unfold epAlignSize at hpos
        exact ⟨rfl, plain, rfl, show 0 < shell.packSize.toInt by omega, hlen⟩
      · simp [if_neg hlen] at h

theorem recombineDecompress_plain {shell : EpShell} (hc : ¬ shell.Compressed ioMgr.refor)
    (h : recombineDecompress bz heap ioMgr shell d = some o) : o = d := by
  unfold recombineDecompress at h
  rw [if_neg hc] at h
  exact (Option.some.inj h).symm

theorem openedBody_eq_some : openedBody aes bz heap ioMgr task body = some o ↔
    ∃ d, recombineDecrypt aes heap ioMgr task.fd task.shell body = some d ∧
      recombineDecompress bz heap ioMgr task.shell d = some o := by
  simp [openedBody, epIoRecombineOriginal, Option.bind_eq_some_iff]

/-- The length of the buffer that `ep_pack_create` is given is one of the header. -/
theorem openedBody_used (hd : Dispatched task) (hbody : task.input = some body)
    (h : openedBody aes bz heap ioMgr task body = some o) :
    o.used = task.shell.textSize ioMgr.refor := by
  obtain ⟨d, hdec, hdecomp⟩ := openedBody_eq_some.mp h
  unfold EpShell.textSize
  split_ifs with hc he
  · exact (recombineDecompress_compressed hc hdecomp).1
  · rw [recombineDecompress_plain hc hdecomp]
    exact (recombineDecrypt_encrypted he hdec).2.2.1
  · rw [recombineDecompress_plain hc hdecomp, recombineDecrypt_plain he hdec]
    exact (hd.body_used hbody).1

/-- `ep_pack_create` compares the length of the document with nothing. -/
theorem EpBuffer.createPack_eq (b : EpBuffer) : b.createPack =
    if b.chunk 0 ≠ 0 ∧ b.used > 0 then
      if b.declared < 0 then none
      else some (some ⟨cells b.chunk 0 b.declared.toNat, b.declared.toNat, [], 0, true⟩)
    else some none := by
  have hhead : ∀ n, (cells b.chunk 0 (max 4 n)).headD 0 = b.chunk 0 := by
    intro n
    obtain ⟨k, hk⟩ := Nat.exists_eq_succ_of_ne_zero (show max 4 n ≠ 0 by omega)
    rw [hk]
    simp [cells, List.range_succ_eq_map]
  have hword : ∀ n, word 4 (cells b.chunk 0 (max 4 n)) = word 4 (cells b.chunk 0 4) := by
    intro n
    rw [word, word, take_cells _ _ (le_max_left 4 n), take_cells _ _ le_rfl]
  change epPackCreate (cells b.chunk 0 (max 4 b.declared.toNat)) b.used = _
  have hdeclared : (BitVec.ofNat 32 (word 4 (cells b.chunk 0 4))).toInt = b.declared := rfl
  simp only [epPackCreate, hhead, hword, hdeclared,
    take_cells _ _ (le_max_right 4 b.declared.toNat)]

theorem EpBuffer.createPack_eq_some {b : EpBuffer} {p : Bson} :
    b.createPack = some (some p) ↔ b.chunk 0 ≠ 0 ∧ 0 < b.used ∧ 0 ≤ b.declared ∧
      p = ⟨cells b.chunk 0 b.declared.toNat, b.declared.toNat, [], 0, true⟩ := by
  rw [b.createPack_eq]
  constructor
  · intro h
    split_ifs at h with hfirst hneg
    · exact ⟨hfirst.1, hfirst.2, not_lt.mp hneg, (Option.some.inj (Option.some.inj h)).symm⟩
    · cases h
  · rintro ⟨hfirst, hpos, hnonneg, rfl⟩
    rw [if_pos ⟨hfirst, hpos⟩, if_neg (not_lt.mpr hnonneg)]

/-- A negative length is the end of the process. -/
theorem EpBuffer.createPack_eq_none {b : EpBuffer} :
    b.createPack = none ↔ b.chunk 0 ≠ 0 ∧ 0 < b.used ∧ b.declared < 0 := by
  rw [b.createPack_eq]
  split_ifs with hfirst hneg
  · simp [hfirst.1, hfirst.2, hneg]
  · simp [hneg]
  · simp only [false_iff]
    exact fun h => hfirst ⟨h.1, h.2.1⟩

/-- What is called depends on the packet of the task only. -/
theorem handlerCalls_eq : handlerCalls aes bz heap ioMgr task =
    match taskPack aes bz heap ioMgr task with
    | .exits => none
    | .givenUp => some []
    | .pack pack => some [(⟨task.shell.proto.category⟩, task.fd, pack)] := by
  unfold handlerCalls epIoProcessor
  cases taskPack aes bz heap ioMgr task <;> rfl

theorem taskPack_body (hbody : task.input = some body) :
    taskPack aes bz heap ioMgr task =
      match openedBody aes bz heap ioMgr task body with
      | none => .givenUp
      | some o =>
        match o.createPack with
        | none => .exits
        | some none => .givenUp
        | some (some p) => .pack (some p) := by
  cases hopen : (epIoRecombineOriginal aes bz heap ioMgr task.fd task.shell body).2 with
  | none => simp [taskPack, hbody, openedBody, hopen]
  | some o =>
    cases hpack : o.createPack with
    | none => simp [taskPack, hbody, openedBody, hopen, hpack]
    | some p => cases p <;> simp [taskPack, hbody, openedBody, hopen, hpack]

theorem taskPack_bodyless (hd : Dispatched task) (hbody : task.input = none) :
    taskPack aes bz heap ioMgr task = .pack none := by
  unfold Dispatched at hd
  unfold taskPack
  rw [hbody] at hd ⊢
  exact if_pos hd

end Stages

/-! ## The lengths of a frame are kept if they are honest, and only then -/

section Kept

variable {aes : AesCipher} {bz : Bz2} {heap : ℕ → ℤ → UInt8} {ioMgr : EpIoMgr} {task : EpIoTask}

theorem HonestLengths.decrypt_kept (h : HonestLengths aes bz heap ioMgr task)
    (hd : Dispatched task) {body d : EpBuffer} (hbody : task.input = some body)
    (he : task.shell.Encrypted ioMgr.refor)
    (hdec : recombineDecrypt aes heap ioMgr task.fd task.shell body = some d) :
    0 < d.used ∧ d.used ≤ d.capacity := by
  obtain ⟨⟨key, hkey⟩, hfit, hused, hcapacity⟩ := recombineDecrypt_encrypted he hdec
  rw [hused, hcapacity]
  rw [(hd.body_used hbody).1] at hfit ⊢
  exact h.decrypt body key hbody he hkey hfit

/-- What has been obtained is at least what the header says. -/
theorem HonestLengths.textSize_le (h : HonestLengths aes bz heap ioMgr task)
    (hd : Dispatched task) {body o : EpBuffer} (hbody : task.input = some body)
    (hopen : openedBody aes bz heap ioMgr task body = some o) :
    task.shell.textSize ioMgr.refor ≤ task.shell.obtained ioMgr.refor := by
  obtain ⟨d, hdec, -⟩ := openedBody_eq_some.mp hopen
  unfold EpShell.textSize EpShell.obtained
  split_ifs with hc he
  · exact le_rfl
  · obtain ⟨⟨key, hkey⟩, hfit, -, -⟩ := recombineDecrypt_encrypted he hdec
    rw [(hd.body_used hbody).1] at hfit
    exact (h.decrypt body key hbody he hkey hfit).2
  · exact le_rfl

/-- A packet is what `ep_pack_create` makes of an opened body. -/
theorem packet_honest (h : HonestLengths aes bz heap ioMgr task) (hd : Dispatched task)
    {body o : EpBuffer} {p : Bson} (hbody : task.input = some body)
    (hopen : openedBody aes bz heap ioMgr task body = some o)
    (hp : o.createPack = some (some p)) : 5 ≤ p.dataSize ∧ p.dataSize ≤ o.used := by
  obtain ⟨hfirst, hpos, hnonneg, rfl⟩ := EpBuffer.createPack_eq_some.mp hp
  rw [openedBody_used hd hbody hopen] at hpos ⊢
  obtain ⟨hfive, hle⟩ := h.document body o hbody hopen hfirst hpos
  exact ⟨by simp only; omega, by rwa [Int.toNat_of_nonneg hnonneg]⟩

theorem HonestLengths.kept (h : HonestLengths aes bz heap ioMgr task) (hd : Dispatched task) :
    LengthsKept aes bz heap ioMgr task where
  decrypt := fun body d hbody he hdec => h.decrypt_kept hd hbody he hdec
  decompress := by
    intro body d o hbody hc hdec hdecomp
    obtain ⟨-, plain, hplain, hpos, hlen⟩ := recombineDecompress_compressed hc hdecomp
    exact ⟨plain, hplain, hpos, hlen.le⟩
  create := fun body o p hbody hopen hp => (packet_honest h hd hbody hopen hp).2
  call := by
    rw [handlerCalls_eq]
    cases hbody : task.input with
    | none =>
      rw [taskPack_bodyless hd hbody]
      exact .inr ⟨none, rfl, fun p hp => nomatch hp⟩
    | some body =>
      rw [taskPack_body hbody]
      cases hopen : openedBody aes bz heap ioMgr task body with
      | none => exact .inl rfl
      | some o =>
        cases hp : o.createPack with
        | none =>
          -- a negative length is not an honest one
          obtain ⟨hfirst, hpos, hneg⟩ := EpBuffer.createPack_eq_none.mp hp
          rw [openedBody_used hd hbody hopen] at hpos
          have hfive := (h.document body o hbody hopen hfirst hpos).1
          omega
        | some p =>
          cases p with
          | none => exact .inl (by simp only [hp])
          | some p =>
            refine .inr ⟨some p, by simp only [hp], ?_⟩
            rintro _ ⟨⟩
            obtain ⟨hfive, hle⟩ := packet_honest h hd hbody hopen hp
            rw [openedBody_used hd hbody hopen] at hle
            exact ⟨hfive, hle.trans (h.textSize_le hd hbody hopen)⟩
  handshake := by
    intro hserver calls hcalls hmem
    rw [handlerCalls_eq] at hcalls
    cases hbody : task.input with
    | none =>
      rw [taskPack_bodyless hd hbody] at hcalls
      obtain rfl := Option.some.inj hcalls
      have hcategory := congrArg (fun c => c.1.toBitVec) (List.mem_singleton.mp hmem)
      exact h.handshake hserver hbody hcategory.symm
    | some body =>
      rw [taskPack_body hbody] at hcalls
      split at hcalls
      · cases hcalls
      · obtain rfl := Option.some.inj hcalls
        cases hmem
      · next pack hpack =>
        obtain rfl := Option.some.inj hcalls
        have hnone : none = pack := congrArg (fun c => c.2.2) (List.mem_singleton.mp hmem)
        subst hnone
        split at hpack
        · cases hpack
        · split at hpack <;> cases hpack

theorem LengthsKept.honest (h : LengthsKept aes bz heap ioMgr task) (hd : Dispatched task) :
    HonestLengths aes bz heap ioMgr task where
  decrypt := by
    intro body key hbody he hkey hfit
    obtain ⟨hused, hpos⟩ := hd.body_used hbody
    rw [← hused] at hfit ⊢
    obtain ⟨d, hdec⟩ : ∃ d, recombineDecrypt aes heap ioMgr _ task.shell body = some d :=
      recombineDecrypt_exists he hkey hpos hfit
    obtain ⟨-, -, hdecrypt, hcapacity⟩ := recombineDecrypt_encrypted he hdec
    have hkept := h.decrypt body d hbody he hdec
    rwa [hdecrypt, hcapacity] at hkept
  document := by
    intro body o hbody hopen hfirst hpos
    rw [← openedBody_used hd hbody hopen] at hpos ⊢
    have hcall := h.call
    rw [handlerCalls_eq, taskPack_body hbody, hopen] at hcall
    by_cases hneg : o.declared < 0
    · -- the process has not exited
      simp [EpBuffer.createPack_eq_none.mpr ⟨hfirst, hpos, hneg⟩] at hcall
    have hnonneg := not_lt.mp hneg
    have hp := EpBuffer.createPack_eq_some.mpr ⟨hfirst, hpos, hnonneg, rfl⟩
    have hle := h.create body o _ hbody hopen hp
    rw [Int.toNat_of_nonneg hnonneg] at hle
    simp only [hp] at hcall
    rcases hcall with hnone | ⟨pack, hcalls, hpack⟩
    · cases hnone
    · obtain ⟨rfl⟩ : some _ = pack :=
        congrArg (fun c => c.2.2) (List.singleton_inj.mp (Option.some.inj hcalls))
      obtain ⟨hfive, -⟩ := hpack _ rfl
      exact ⟨by simp only at hfive; omega, hle⟩
  handshake := by
    intro hserver hbody hcategory
    refine h.handshake hserver _ ?_ (List.mem_singleton.mpr rfl)
    rw [handlerCalls_eq, taskPack_bodyless hd hbody, hcategory]

/-- For every frame that is dispatched, under any key and with any contents of memory. -/
theorem lengthsKept_iff (hd : Dispatched task) :
    LengthsKept aes bz heap ioMgr task ↔ HonestLengths aes bz heap ioMgr task :=
  ⟨fun h => h.honest hd, fun h => h.kept hd⟩

end Kept

/-- A frame that is neither compressed nor encrypted. -/
def plainTask (category : BitVec 16) (body : List UInt8) : EpIoTask where
  fd := 5
  shell := ⟨epMagicNumber, ⟨category, reqTypePost, cryptTypeNone, compressTypeNone, 0, 0, 0⟩,
    BitVec.ofNat 32 body.length, 0, 0⟩
  input := epBufferNew (fun _ => 0) (fun a => body.getD a.toNat 0) body.length

/-- The empty document is as long as it says. -/
theorem lengthsKept_empty : LengthsKept fipsAes storedBz2 (fun _ _ => 0) (fipsMgr .server 5)
    (plainTask 7 [5, 0, 0, 0, 0]) := by
  have hd : Dispatched (plainTask 7 [5, 0, 0, 0, 0]) := Exists.intro _ (Exists.intro _ rfl)
  refine (lengthsKept_iff hd).mpr ⟨fun _ _ _ he => absurd he (by decide), ?_,
    fun _ hnone => nomatch hnone⟩
  rintro body o ⟨⟩ ⟨⟩ - -
  decide

/-- Five bytes that declare a document of a hundred bytes are taken for one, five that declare
a negative length end the process, and a header alone enters the handshake. -/
theorem lengths_overrun :
    (handlerCalls fipsAes storedBz2 (fun _ _ => 0) (fipsMgr .server 5)
      (plainTask 7 [100, 0, 0, 0, 0])).map (·.map fun c => c.2.2.map Bson.dataSize) =
        some [some 100] ∧
    ¬ LengthsKept fipsAes storedBz2 (fun _ _ => 0) (fipsMgr .server 5)
      (plainTask 7 [100, 0, 0, 0, 0]) ∧
    (handlerCalls fipsAes storedBz2 (fun _ _ => 0) (fipsMgr .server 5)
      (plainTask 7 [1, 0, 0, 0x80, 0])).isNone ∧
    ¬ LengthsKept fipsAes storedBz2 (fun _ _ => 0) (fipsMgr .server 5)
      (plainTask 7 [1, 0, 0, 0x80, 0]) ∧
    ¬ LengthsKept fipsAes storedBz2 (fun _ _ => 0) (fipsMgr .server 5)
      (plainTask categoryInternalKey.toBitVec []) := by
  refine ⟨by decide, fun h => ?_, by decide, fun h => ?_, fun h => ?_⟩
  · have hd : Dispatched (plainTask 7 [100, 0, 0, 0, 0]) := Exists.intro _ (Exists.intro _ rfl)
    obtain ⟨-, hle⟩ := (h.honest hd).document _ _ rfl rfl (by decide) (by decide)
    exact absurd hle (by decide)
  · have hd : Dispatched (plainTask 7 [1, 0, 0, 0x80, 0]) := Exists.intro _ (Exists.intro _ rfl)
    obtain ⟨hfive, -⟩ := (h.honest hd).document _ _ rfl rfl (by decide) (by decide)
    exact absurd hfive (by decide)
  · have hd : Dispatched (plainTask categoryInternalKey.toBitVec []) := rfl
    exact (h.honest hd).handshake rfl rfl rfl

end Youmenu.Eventpack
