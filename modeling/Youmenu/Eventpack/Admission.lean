import Youmenu.Eventpack.Cert

/-!
# What a client admits and what a server accepts

`ep_req_new` compares the size of the packet with the capacity, and `ep_io_enqueue` the size
of the body: in between the packet is compressed, which can make it larger, and encrypted,
which always does.

## Main definitions

* `NeverRefused` — a frame that no receiver of the capacity refuses for its size, as long as
  its ring buffer does not outgrow an `int`.
* `BodyFits` — the sizes after compression and encryption are within the capacity.
-/

namespace Youmenu.Eventpack

open Circular Incremental

/-! ## Refusing a frame -/

/-- A receiver of the capacity that has nothing unparsed takes the frame, or any first part
of it, in whatever pieces it arrives that its ring buffer survives. -/
def NeverRefused (maxCapacity : ℤ) (frame : List UInt8) : Prop :=
  ∀ (ioMgr : EpIoMgr) (fd : ℤ) (v : IoView), ioMgr.maxCapacity = maxCapacity →
    HasView ioMgr fd v → v.raw = [] →
      ∀ chunks : List (List UInt8), (∀ c ∈ chunks, (c.length : ℤ) ≤ maxCapacity) →
        chunks.flatten <+: frame → v.WithinInt maxCapacity chunks →
          ∀ fuel fresh, chunks.flatten.length < fuel → ∃ ioMgr' codes tasks,
            enqueueAll fuel fd fresh ioMgr chunks = some (ioMgr', codes, tasks) ∧ -2 ∉ codes

section Refusal

variable {maxCapacity : ℤ}

theorem neverRefused_of_le {aes : AesCipher} {bz : Bz2} {frame : List UInt8}
    (hbuilt : BuiltFrame aes bz maxCapacity frame) : NeverRefused maxCapacity frame := by
  rintro ioMgr fd v rfl hview hraw chunks hlen hprefix hint fuel fresh hfuel
  suffices h : ∃ ioMgr' codes tasks,
      enqueueAll fuel fd fresh ioMgr chunks = some (ioMgr', codes, tasks) ∧ ∀ c ∈ codes, 0 ≤ c by
    obtain ⟨ioMgr', codes, tasks, hall, hcodes⟩ := h
    exact ⟨ioMgr', codes, tasks, hall, fun hmem => absurd (hcodes _ hmem) (by decide)⟩
  by_cases hwhole : chunks.flatten = frame
  · -- the whole frame, and nothing of the next one
    have hnil : ([] : List UInt8) ≠ frame := by
      rintro rfl
      obtain ⟨-, hframe⟩ := hbuilt.frame
      have hmore := hframe.take []
      exact absurd hmore (by simp [shellParser, shellLook, sizeofEpShell])
    obtain ⟨ioMgr', codes, tasks, hall, -, hcodes, -⟩ := enqueueAll_reassembles hview hraw
      (F := [frame]) (by simpa using hbuilt) hbuilt frame.nil_prefix hnil hlen
      (by simpa using hwhole) hint hfuel fresh
    exact ⟨ioMgr', codes, tasks, hall, hcodes⟩
  · obtain ⟨ioMgr', codes, tasks, hall, -, hcodes, -⟩ := enqueueAll_reassembles hview hraw
      (F := []) (by simp) hbuilt hprefix hwhole hlen rfl hint hfuel fresh
    exact ⟨ioMgr', codes, tasks, hall, hcodes⟩

theorem hasView_single (hM : 0 < maxCapacity) (fd : ℤ) (shell : EpShell) :
    HasView ⟨.server, maxCapacity, maxCapacity, 0,
      [⟨epRbNew maxCapacity maxCapacity, shell, false, ⟨fun _ => 0, fun _ => 0⟩, fd⟩]⟩ fd
      (.start maxCapacity) :=
  ⟨_, by simp [epIoFind]; rfl, ⟨epRbNew_valid hM hM, rfl, by simp, by simp, by simp⟩, rfl⟩

/-- A frame whose size is over the capacity is refused with its header. -/
theorem le_of_neverRefused (hM : 0 < maxCapacity) {frame : List UInt8}
    (hlen : sizeofEpShell ≤ frame.length)
    (hmagic : (EpShell.ofBytes frame).toHost.magic = epMagicNumber)
    (h : NeverRefused maxCapacity frame) :
    (EpShell.ofBytes frame).toHost.shellSize.toInt ≤ maxCapacity := by
  by_contra hbig
  -- the header arrives byte by byte, so that no piece is over the capacity
  have hcut : ((frame.take sizeofEpShell).map ([·])).flatten = frame.take sizeofEpShell := by
    rw [← List.flatMap_def, List.flatMap_singleton']
  have hheader : (frame.take sizeofEpShell).length = sizeofEpShell := by simp [hlen]
  have hmore : ∀ q, q <+: frame.take sizeofEpShell → q ≠ [] → q ≠ frame.take sizeofEpShell →
      ∃ c, (shellParser maxCapacity).look ([] ++ q) = .more c := by
    intro q hq _ hne
    have hshort : q.length < sizeofEpShell :=
      hheader ▸ lt_of_le_of_ne hq.length_le fun heq => hne (hq.eq_of_length heq)
    exact ⟨0, if_pos hshort⟩
  have hrefuse : (shellParser maxCapacity).look ([] ++ frame.take sizeofEpShell) =
      .refuse (-2) [] := by
    have hlong : ¬ (frame.take sizeofEpShell).length < sizeofEpShell := by omega
    have hover : (EpShell.ofBytes frame).toHost.shellSize.toInt > maxCapacity := by omega
    simp only [List.nil_append, shellParser, shellLook, if_neg hlong, EpShell.ofBytes_take, hmagic,
      ne_eq, not_true, if_false, if_pos hover, List.drop_take, Nat.sub_self, List.take_zero]
  have hne : frame.take sizeofEpShell ≠ [] := List.ne_nil_of_length_pos (by rw [hheader]; decide)
  obtain ⟨⟨o, ho, hcode⟩, hitems⟩ := Parser.feed_singletons hne hmore hrefuse
  have hsingle : ∀ c ∈ (frame.take sizeofEpShell).map ([·]), (c.length : ℤ) ≤ maxCapacity := by
    intro c hc
    obtain ⟨b, -, rfl⟩ := List.mem_map.mp hc
    exact hM
  have hview := hasView_single hM 5 ⟨0, .ofWord 0, 0, 0, 0⟩
  have hint : (IoView.start maxCapacity).WithinInt maxCapacity
      ((frame.take sizeofEpShell).map ([·])) := by
    apply IoView.withinInt_of_length
    rw [hcut, List.length_append, hheader]
    exact show 2 * (0 + 18) ≤ 2 ^ 31 by decide
  obtain ⟨ioMgr', codes, tasks, hall, hcodes⟩ := h _ 5 _ rfl hview rfl _ hsingle
    (by rw [hcut]; exact List.take_prefix _ _) hint _ (fun _ _ _ _ => 0) (Nat.lt_succ_self _)
  obtain ⟨ioMgr₁, tasks₁, hall₁, -⟩ := enqueueAll_spec _ _ (fun _ _ _ _ => 0) hview hsingle hint
    (Nat.lt_succ_self _) (fun o ho x hx => by simp [hitems o ho] at hx)
  obtain ⟨-, heq⟩ := Prod.mk.inj (Option.some.inj (hall.symm.trans hall₁))
  obtain ⟨rfl, -⟩ := Prod.mk.inj heq
  exact hcodes (List.mem_map.mpr ⟨o, ho, hcode⟩)

end Refusal

/-! ## Making a request -/

/-- The body that the settings make of the bytes is within the capacity. A packet that is
neither compressed nor encrypted has been compared with it already. -/
def BodyFits (bz : Bz2) (maxCapacity : ℤ) (flag crypt : BitVec 3) (xs : List UInt8) : Prop :=
  (flag = compressTypeCompress → ((packed bz flag xs).length : ℤ) ≤ maxCapacity) ∧
    (crypt = cryptTypeEncrypt →
      (((packed bz flag xs).length / 16 + 1) * 16 : ℕ) ≤ maxCapacity)

instance (bz : Bz2) (maxCapacity : ℤ) (flag crypt : BitVec 3) (xs : List UInt8) :
    Decidable (BodyFits bz maxCapacity flag crypt xs) :=
  inferInstanceAs (Decidable ((_ → _) ∧ (_ → _)))

/-- The bytes of a finished packet that `ep_buffer_new2` copies. -/
def sentBytes (pack : Bson) : List UInt8 :=
  cells (fun a => pack.data.getD a.toNat 0) 0 (epPackSize pack).toNat

section Request

variable {aes : AesCipher} {bz : Bz2} {heap : ℕ → ℤ → UInt8} {client client' : EpClient}
  {param : ReqParam Bson} {id : ℕ} {frame : List UInt8}

/-- A request that gets a frame has passed the size check. -/
theorem EpClient.epReqNew_frame
    (h : client.epReqNew aes bz heap param = some (client', some (id, frame))) :
    ∃ pack, ((param.pack = none ∧ pack = none) ∨ ∃ p p' ok, param.pack = some p ∧
        bsonFinish p = some (p', ok) ∧ pack = some p') ∧
      (pack.map epPackSize).getD 0 ≤ client.ioMaxCapacity ∧
      requestFrame aes bz heap client param pack = some frame := by
  unfold EpClient.epReqNew at h
  split at h
  · simp at h
  dsimp only at h
  split at h
  all_goals
    obtain ⟨pack, hpack, h⟩ := Option.bind_eq_some_iff.mp h
    refine ⟨pack, ?_, ?_⟩
  · next hnone _ => exact .inl ⟨hnone, (Option.some.inj hpack).symm⟩
  rotate_left
  · next p hsome _ =>
    obtain ⟨⟨p', ok⟩, hfinish, rfl⟩ := Option.map_eq_some_iff.mp hpack
    exact .inr ⟨p, p', ok, hsome, hfinish, rfl⟩
  all_goals
    split at h
    · simp at h
    next hsize =>
    split at h
    · simp at h
    split at h
    · simp at h
    next hframe =>
    obtain ⟨-, -, rfl⟩ := by simpa using h
    exact ⟨not_lt.mp hsize, hframe⟩

/-- A frame without a body is within every capacity. -/
theorem requestFrame_none {maxCapacity : ℤ} (hM : 0 < maxCapacity)
    (h : requestFrame aes bz heap client param none = some frame) :
    (EpShell.ofBytes frame).toHost.shellSize.toInt ≤ maxCapacity ∧
      BuiltFrame aes bz maxCapacity frame := by
  simp only [requestFrame, Option.bind_eq_bind, Option.bind_some] at h
  rw [Option.bind_eq_some_iff] at h
  obtain ⟨⟨net, out⟩, hcombine, h⟩ := h
  rw [Option.bind_eq_some_iff] at h
  obtain ⟨-, -, h⟩ := h
  cases h
  obtain ⟨hnet, hout⟩ := epIoCombineShell_none_spec hcombine
  have hsize : (EpShell.ofBytes out.bytes).toHost.shellSize.toInt ≤ maxCapacity := by
    rw [hout.bytes_eq, hnet, EpShell.ofBytes_bytes, EpShell.toHost_toNetwork]
    exact hM.le
  exact ⟨hsize, _, _, _, _, none, net, out, rfl, by simp, hcombine, rfl, hsize⟩

/-- The frame of a packet: its header, and its size under the settings. -/
structure SentFrame (aes : AesCipher) (bz : Bz2) (client : EpClient) (param : ReqParam Bson)
    (pack : Bson) (frame : List UInt8) : Prop where
  length_sent : ((sentBytes pack).length : ℤ) = epPackSize pack
  header_le : sizeofEpShell ≤ frame.length
  magic : (EpShell.ofBytes frame).toHost.magic = epMagicNumber
  shellSize : (EpShell.ofBytes frame).toHost.shellSize.toInt =
    wireLength bz (resolveCompress client.ioMgr.miniCompressIf param.cCompress (epPackSize pack))
      param.cCrypt (sentBytes pack)
  built : ∀ maxCapacity, (EpShell.ofBytes frame).toHost.shellSize.toInt ≤ maxCapacity →
    BuiltFrame aes bz maxCapacity frame

theorem requestFrame_some (hrole : client.ioMgr.refor = .client) {pack : Bson}
    (h : requestFrame aes bz heap client param (some pack) = some frame) :
    SentFrame aes bz client param pack frame := by
  obtain ⟨input, hinput, h⟩ := Option.bind_eq_some_iff.mp h
  obtain ⟨b, hb, rfl⟩ := Option.map_eq_some_iff.mp hinput
  obtain ⟨⟨net, out⟩, hcombine, h⟩ := Option.bind_eq_some_iff.mp h
  obtain ⟨-, -, h⟩ := Option.bind_eq_some_iff.mp h
  cases h
  have hholds : b.Holds (sentBytes pack) := epBufferNew_holds hb
  have hpos := ((epBufferNew_isSome_iff _ _ _).mp (by rw [epBufferNew2] at hb; rw [hb]; rfl)).1
  have hlen : ((sentBytes pack).length : ℤ) = epPackSize pack := by
    rw [sentBytes, length_cells]
    exact Int.toNat_of_nonneg hpos.le
  have hused : b.used = epPackSize pack := hholds.used_eq.trans hlen
  have hflag : client.ioMgr.frameFlag (param.shell param.type) b.used =
      resolveCompress client.ioMgr.miniCompressIf param.cCompress (epPackSize pack) := by
    rw [EpIoMgr.frameFlag, hrole, hused]
    rfl
  have hcrypt : (param.shell param.type).proto.cryptOf client.ioMgr.refor = param.cCrypt := by
    rw [hrole]
    rfl
  obtain ⟨hmagic, -, hsize, hlong⟩ := epIoCombineShell_header hcombine hholds hflag hcrypt
  refine ⟨hlen, (Nat.le_add_right _ _).trans hlong.ge, hmagic, hsize, fun M hle =>
    ⟨_, _, _, _, some b, net, out, rfl, ?_, hcombine, rfl, hle⟩⟩
  rintro _ ⟨⟩
  exact hused ▸ hpos

theorem wireLength_le_iff {maxCapacity : ℤ} (flag crypt : BitVec 3) {xs : List UInt8}
    (hadmitted : (xs.length : ℤ) ≤ maxCapacity) :
    (wireLength bz flag crypt xs : ℤ) ≤ maxCapacity ↔ BodyFits bz maxCapacity flag crypt xs := by
  simp only [wireLength, BodyFits]
  by_cases hcrypt : crypt = cryptTypeEncrypt
  · simp only [hcrypt, if_true, forall_const]
    omega
  · by_cases hflag : flag = compressTypeCompress
    · simp [hcrypt, hflag]
    · simp [hcrypt, hflag, packed, hadmitted]

/-- What the settings make of the packet of a request is within the capacity. -/
def RequestFits (bz : Bz2) (client : EpClient) (param : ReqParam Bson) : Prop :=
  ∀ p p' ok, param.pack = some p → bsonFinish p = some (p', ok) →
    BodyFits bz client.ioMaxCapacity
      (resolveCompress client.ioMgr.miniCompressIf param.cCompress (epPackSize p'))
      param.cCrypt (sentBytes p')

/-- For every request that passes the size check and gets a frame: the size of the body is
within the capacity, and no peer of that capacity refuses the frame, if and only if the
compressed and encrypted packet fits. -/
theorem epReqNew_accepted_iff (hM : 0 < client.ioMaxCapacity)
    (hrole : client.ioMgr.refor = .client)
    (hnew : client.epReqNew aes bz heap param = some (client', some (id, frame))) :
    ((EpShell.ofBytes frame).toHost.shellSize.toInt ≤ client.ioMaxCapacity ↔
        RequestFits bz client param) ∧
      (NeverRefused client.ioMaxCapacity frame ↔ RequestFits bz client param) := by
  obtain ⟨pack, hpack, hadmitted, hframe⟩ := EpClient.epReqNew_frame hnew
  rcases hpack with ⟨hnone, rfl⟩ | ⟨p, p', ok, hsome, hfinish, rfl⟩
  · obtain ⟨hsize, hbuilt⟩ := requestFrame_none hM hframe
    have hfits : RequestFits bz client param := fun p p' ok hp => by
      rw [hnone] at hp
      cases hp
    exact ⟨iff_of_true hsize hfits, iff_of_true (neverRefused_of_le hbuilt) hfits⟩
  · have hsent := requestFrame_some hrole hframe
    have hone : RequestFits bz client param ↔ BodyFits bz client.ioMaxCapacity
        (resolveCompress client.ioMgr.miniCompressIf param.cCompress (epPackSize p'))
        param.cCrypt (sentBytes p') := by
      constructor
      · exact fun h => h p p' ok hsome hfinish
      · intro h q q' ok' hq hfinish'
        obtain rfl := Option.some.inj (hsome.symm.trans hq)
        obtain ⟨rfl, rfl⟩ := Prod.mk.inj (Option.some.inj (hfinish.symm.trans hfinish'))
        exact h
    have hsize : (EpShell.ofBytes frame).toHost.shellSize.toInt ≤ client.ioMaxCapacity ↔
        RequestFits bz client param := by
      rw [hone, hsent.shellSize]
      exact wireLength_le_iff _ _ (hsent.length_sent.trans_le hadmitted)
    refine ⟨hsize, fun hnever => ?_, fun hfits => ?_⟩
    · exact hsize.mp (le_of_neverRefused hM hsent.header_le hsent.magic hnever)
    · exact neverRefused_of_le (hsent.built _ (hsize.mpr hfits))

end Request

/-- A request with the empty packet, to be encrypted. -/
def emptyRequest : ReqParam Bson :=
  ⟨7, reqTypeGet, cryptTypeEncrypt, compressTypeAuto, cryptTypeEncrypt, compressTypeAuto,
    some (bsonInit [0, 0, 0, 0])⟩

theorem emptyRequest_sent (maxCapacity : ℤ) (h : (((EpClient.start 4 maxCapacity 4096 5).epReqNew
      fipsAes storedBz2 (fun _ _ => 0) emptyRequest).bind (·.2)).isSome = true) :
    ∃ client id frame, (EpClient.start 4 maxCapacity 4096 5).epReqNew fipsAes storedBz2
      (fun _ _ => 0) emptyRequest = some (client, some (id, frame)) := by
  obtain ⟨⟨id, frame⟩, hsent⟩ := Option.isSome_iff_exists.mp h
  obtain ⟨⟨client, request⟩, hnew, hrequest⟩ := Option.bind_eq_some_iff.mp hsent
  cases hrequest
  exact ⟨client, id, frame, hnew⟩

/-- The sixteen bytes of its ciphertext are within a capacity of thirty-two. -/
theorem emptyRequest_accepted : ∃ client id frame,
    (EpClient.start 4 32 4096 5).epReqNew fipsAes storedBz2 (fun _ _ => 0) emptyRequest =
      some (client, some (id, frame)) ∧ NeverRefused 32 frame := by
  obtain ⟨client, id, frame, hnew⟩ := emptyRequest_sent 32 (by decide)
  refine ⟨client, id, frame, hnew, (epReqNew_accepted_iff (by decide) rfl hnew).2.mpr ?_⟩
  intro p p' ok hp hfinish
  cases hp
  obtain ⟨rfl, -⟩ := Prod.mk.inj (Option.some.inj hfinish)
  decide

/-- The five bytes of the packet pass the check of a capacity of eight, and the ciphertext
is refused. -/
theorem emptyRequest_refused : ∃ client id frame,
    (EpClient.start 4 8 4096 5).epReqNew fipsAes storedBz2 (fun _ _ => 0) emptyRequest =
      some (client, some (id, frame)) ∧
    (EpShell.ofBytes frame).toHost.shellSize.toInt = 16 ∧ ¬ NeverRefused 8 frame := by
  obtain ⟨client, id, frame, hnew⟩ := emptyRequest_sent 8 (by decide)
  obtain ⟨pack, hpack, -, hframe⟩ := EpClient.epReqNew_frame hnew
  obtain ⟨p, p', ok, hp, hfinish, rfl⟩ := hpack.resolve_left fun h => nomatch h.1
  cases hp
  obtain ⟨rfl, -⟩ := Prod.mk.inj (Option.some.inj hfinish)
  have hsent := requestFrame_some rfl hframe
  have hsize : (EpShell.ofBytes frame).toHost.shellSize.toInt = 16 :=
    hsent.shellSize.trans (by decide)
  refine ⟨client, id, frame, hnew, hsize, fun hnever => ?_⟩
  have hle := le_of_neverRefused (by decide) hsent.header_le hsent.magic hnever
  omega

end Youmenu.Eventpack
