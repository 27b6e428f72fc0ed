import Youmenu.Eventpack.Handshake

/-!
# A handshake that the server refuses

When the handler refuses the request, nothing has been installed, and the reply is ciphered
with the zeros that the connection started with. The client installed its own key before it
asked.

## Main statements

* `serve_refused` — what the server sends.
* `refusal_reported` — when the client can read it.
-/

namespace Youmenu.Eventpack

open Bytes Circular

/-- The packet that the handler gets. -/
def securityPack (security : List UInt8) : Bson :=
  let data := onePack bsonBindata securityKey
    (leBytes 4 security.length ++ bsonBinBinary :: security)
  ⟨data, data.length, [], 0, true⟩

/-- The packet that says `-1`. -/
def refusalPack : EpPack where
  bytes := onePack bsonInt resultKey (leBytes 4 0xFFFFFFFF)
  five_le := by decide
  size_eq := by decide

/-- The key of a connection on which no handshake has been completed. -/
def zeroKey : EpAesKey := ⟨fun _ => 0, fun _ => 0⟩

theorem Finished.eq_onePack {op : PackOp} {bs data : List UInt8} (h : Finished [op] bs data)
    {t : UInt8} {name : CString} {v : List UInt8} (he : op.element = some (t, name, v)) :
    data = onePack t name v := by
  obtain ⟨bs', hbs, hnil⟩ := h.doc.value_inv he
  obtain rfl := hnil.nil_inv
  rw [List.append_nil] at hbs
  rw [h.data_eq, hbs]
  rfl

theorem epIoGetAes_epIoAdd {ioMgr : EpIoMgr} {fd : ℤ} (hnew : epIoFind ioMgr fd = none) :
    epIoGetAes (epIoAdd ioMgr fd) fd = some zeroKey ∧ (epIoAdd ioMgr fd).refor = ioMgr.refor ∧
      (epIoAdd ioMgr fd).miniCompressIf = ioMgr.miniCompressIf := by
  have hnone := hnew
  unfold epIoFind at hnone
  simp only [epIoAdd, hnew]
  refine ⟨?_, trivial, trivial⟩
  simp [epIoGetAes, epIoFind, hnone, zeroKey]

/-- The two results are different packets. -/
theorem packOf_resultOps_ne (mem : ℤ → UInt8) :
    packOf mem (resultOps 1) ≠ packOf mem (resultOps (-1)) := by
  intro heq
  obtain ⟨b, ok, bs, hfinish, hb⟩ := resultOps_finished 1 mem
  obtain ⟨b', ok', bs', hfinish', hb'⟩ := resultOps_finished (-1) mem
  rw [heq, hfinish'] at hfinish
  cases hfinish
  have hone := securityResult_eq hb rfl (fun _ => 0) 0
  rw [securityResult_eq hb' rfl] at hone
  exact absurd hone (by decide)

/-- On a connection that is there, `-1` is appended only where no key passes. -/
theorem verifiedKey_refused {md5 : List UInt8 → Block} {rsa : Rsa} {heap : ℕ → ℤ → UInt8}
    {ioMgr server : EpIoMgr} {fd : ℤ} {p : Bson} {old : EpAesKey}
    (hold : epIoGetAes ioMgr fd = some old)
    (h : epCertServerSecurity md5 rsa heap ioMgr fd (some p) =
      some (server, some (packOf (heap 2) (resultOps (-1))))) :
    verifiedKey md5 rsa heap p = some none := by
  cases hkey : verifiedKey md5 rsa heap p with
  | none => simp [epCertServerSecurity, hkey] at h
  | some key =>
    cases key with
    | none => rfl
    | some key =>
      rw [epCertServerSecurity_accepted hkey hold] at h
      simp only [Option.some.injEq, Prod.mk.injEq] at h
      exact absurd h.2 (packOf_resultOps_ne _)

/-- The reply to a refused request: it is built under the key of the new connection. -/
theorem serve_refused {g : Setting} {service : EpIoMgr} (hrefor : service.refor = .server)
    (hdef : 0 < service.defCapacity) (hmax : service.defCapacity < service.maxCapacity) {sfd : ℤ}
    (hnew : epIoFind service sfd = none) {client : EpClient} {key : EpAesKey}
    {security frame : List UInt8} (hwait : Waiting g.aes g.bz client key security frame)
    (hcut : (g.cut frame).flatten = frame)
    (hint : (IoView.start service.defCapacity).WithinInt service.maxCapacity (g.cut frame))
    (hfuel : frame.length < g.fuel) (hroom : (frame.length : ℤ) ≤ service.maxCapacity)
    (hmod : packTotal (securityOps security) % 256 ≠ 0)
    (hrefused : ∃ server, epCertServerSecurity g.md5 g.rsa g.heaps.handler (epIoAdd service sfd)
      sfd (some (securityPack security)) =
        some (server, some (packOf (g.heaps.handler 2) (resultOps (-1))))) :
    ∃ server bs reply shell net out,
      g.serve (epIoAdd service sfd) sfd frame = some (server, [reply]) ∧
      Finished (resultOps (-1)) bs refusalPack.bytes ∧
      Answer g.aes g.bz g.heaps.serverWork server sfd refusalPack.bytes reply shell net out ∧
      epIoGetAes server sfd = some zeroKey ∧ server.miniCompressIf = service.miniCompressIf := by
  obtain ⟨hview, hcap⟩ := epIoAdd_hasView hdef hmax hnew
  obtain ⟨hzero, hrefor', hmini⟩ := epIoGetAes_epIoAdd hnew
  obtain ⟨server₀, hrefused⟩ := hrefused
  obtain ⟨server₁, bs, data, hsame, hdata, hserve⟩ := serve_eq hwait hview rfl
    (hrefor'.trans hrefor) hcut (by omega) (by rwa [hcap]) hfuel hmod
  obtain rfl := hdata.eq_onePack rfl
  have hkey := verifiedKey_refused hzero hrefused
  have hzero₁ := hsame.aes.trans hzero
  obtain ⟨reply, bs', data', shell, net, out, hreply, hdata', hanswer⟩ := hserve server₁ (-1)
    (epCertServerSecurity_refused hkey server₁ sfd) ⟨_, hzero₁⟩
    (hsame.refor.trans (hrefor'.trans hrefor))
  obtain rfl : data' = refusalPack.bytes := hdata'.eq_onePack rfl
  exact ⟨server₁, bs', reply, shell, net, out, hreply, hdata', hanswer, hzero₁,
    hsame.miniCompressIf.trans hmini⟩

def sampleClient : EpClient :=
  let client : EpClient := .start 4096 4194304 4096 5
  { client with
    ioMgr := (epIoUpdateAes client.ioMgr 5 (epCertGenClientKey sampleMd5 sampleRandom)).1 }

def sampleRequest : ReqParam Bson := securityParam (packOf (fun _ => 0) (securityOps [0x2a]))

theorem sampleClient_waits :
    ∃ client frame, sampleClient.epReqNew sampleAes storedBz2 (fun _ _ => 0) sampleRequest =
        some (client, some (0, frame)) ∧
      Waiting sampleAes storedBz2 client (epCertGenClientKey sampleMd5 sampleRandom) [0x2a] frame ∧
      frame.length ≤ 1018 := by
  obtain ⟨-, hreg, hrefor, hget, hcap⟩ := EpClient.start_key (show (0 : ℤ) < 4096 by decide)
    (show (4096 : ℤ) < 4194304 by decide) 4096 5 (epCertGenClientKey sampleMd5 sampleRandom)
  obtain ⟨client, frame, hreq, hwait, -, hshort⟩ := epReqNew_security sampleAes storedBz2
    sampleClient (show ([0x2a] : List UInt8).length ≤ 128 by decide) hreg hrefor hget
    (le_of_le_of_eq (by decide) hcap.symm) (by decide) (by decide) rfl rfl rfl (fun _ => 0)
    (fun _ _ => 0)
  exact ⟨client, frame, hreq, hwait, hshort⟩

theorem sample_refused :
    epCertServerSecurity sampleMd5 sampleRsa (fun _ _ => 0) (epIoAdd sampleService 7) 7
      (some (securityPack [0x2a])) =
    some (epIoAdd sampleService 7, some (packOf (fun _ => 0) (resultOps (-1)))) :=
  epCertServerSecurity_refused rfl _ _

theorem sample_withinInt {frame : List UInt8} (hshort : frame.length ≤ 1018) :
    (IoView.start sampleService.defCapacity).WithinInt sampleService.maxCapacity
      (sampleSetting.cut frame) :=
  IoView.withinInt_of_length (by simp [IoView.start, sampleSetting]; omega)

end Youmenu.Eventpack
