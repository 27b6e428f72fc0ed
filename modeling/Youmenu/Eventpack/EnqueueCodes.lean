import Youmenu.Eventpack.Reassembly

/-!
# The return codes of `ep_io_enqueue`

The loop has two exits that are no errors, one before a header and one before a body. Each
returns a code of its own, whatever was dispatched before.

## Main definitions

* `Framing` — whole frames, and what is left behind them.
* `CodeMeans` — the codes are about what was dispatched.
-/

namespace Youmenu.Eventpack

open Incremental

/-! ## Frames -/

/-- The size that a header in front of the bytes declares. -/
def headerSize (bs : List UInt8) : ℤ := (EpShell.ofBytes bs).toHost.shellSize.toInt

/-- A header and as many bytes as it declares. -/
structure WholeFrame (f : List UInt8) : Prop where
  header : sizeofEpShell ≤ f.length
  size : headerSize f = f.length - sizeofEpShell

/-- Part of a header, or a header and part of its body. -/
def BrokenOff (bs : List UInt8) : Prop :=
  bs.length < sizeofEpShell ∨ (bs.length : ℤ) < sizeofEpShell + headerSize bs

/-- The bytes are whole frames and something that is none. -/
structure Framing (bs : List UInt8) (frames : List (List UInt8)) (tail : List UInt8) : Prop where
  eq : bs = frames.flatten ++ tail
  whole : ∀ f ∈ frames, WholeFrame f
  tail : BrokenOff tail

/-- Every header that stands behind whole frames declares a size that is not negative. -/
def NonnegSizes (bs : List UInt8) : Prop :=
  ∀ (frames : List (List UInt8)) (rest : List UInt8), bs = frames.flatten ++ rest →
    (∀ f ∈ frames, WholeFrame f) → sizeofEpShell ≤ rest.length → 0 ≤ headerSize rest

/-- 1 if a frame was dispatched, 0 if none was. -/
structure CodeMeans (code : ℤ) (log : EnqueueLog) : Prop where
  one : code = 1 ↔ log.dispatched ≠ []
  zero : code = 0 ↔ log.dispatched = []

theorem headerSize_append {bs : List UInt8} (h : sizeofEpShell ≤ bs.length) (rest : List UInt8) :
    headerSize (bs ++ rest) = headerSize bs := by
  rw [headerSize, ← EpShell.ofBytes_take, List.take_append_of_le_length h, EpShell.ofBytes_take]
  rfl

theorem NonnegSizes.tail {f rest : List UInt8} (h : NonnegSizes (f ++ rest)) (hf : WholeFrame f) :
    NonnegSizes rest := by
  intro frames rest' heq hframes hlen
  refine h (f :: frames) rest' (by simp [heq]) ?_ hlen
  exact List.forall_mem_cons.mpr ⟨hf, hframes⟩

/-- Bytes with such headers are cut into frames. The induction is on their number: what is
behind a whole frame is shorter. -/
theorem NonnegSizes.exists_framing {n : ℕ} {bs : List UInt8} (hn : bs.length ≤ n)
    (h : NonnegSizes bs) : ∃ frames tail, Framing bs frames tail := by
  induction n generalizing bs with
  | zero =>
    have hlen : bs.length < sizeofEpShell := by
      have : 0 < sizeofEpShell := by decide
      omega
    exact ⟨[], bs, rfl, by simp, .inl hlen⟩
  | succ n ih =>
    by_cases hbroken : BrokenOff bs
    · exact ⟨[], bs, rfl, by simp, hbroken⟩
    · obtain ⟨hheader, hbody⟩ := not_or.mp hbroken
      have hsize : 0 ≤ headerSize bs := h [] bs rfl (by simp) (not_lt.mp hheader)
      obtain ⟨size, hsize⟩ := Int.eq_ofNat_of_zero_le hsize
      have hpos : 0 < sizeofEpShell := by decide
      have hcut := List.take_append_drop (sizeofEpShell + size) bs
      have hlen : (bs.take (sizeofEpShell + size)).length = sizeofEpShell + size := by
        rw [List.length_take]
        omega
      have hframe : WholeFrame (bs.take (sizeofEpShell + size)) := by
        refine ⟨by omega, ?_⟩
        rw [← headerSize_append (by omega) (bs.drop (sizeofEpShell + size)), hcut, hsize, hlen]
        omega
      have hshort : (bs.drop (sizeofEpShell + size)).length ≤ n := by
        rw [List.length_drop]
        omega
      obtain ⟨frames, tail, hframing⟩ := ih hshort (NonnegSizes.tail (by rwa [hcut]) hframe)
      refine ⟨_ :: frames, tail, ?_, List.forall_mem_cons.mpr ⟨hframe, hframing.whole⟩,
        hframing.tail⟩
      rw [List.flatten_cons, List.append_assoc, ← hframing.eq, hcut]

/-! ## The parser -/

/-- The parser takes a whole frame off the front, or refuses its header. -/
theorem look_wholeFrame (maxCapacity : ℤ) {f : List UInt8} (hf : WholeFrame f)
    (rest : List UInt8) :
    (∃ code rest', (shellParser maxCapacity).look (f ++ rest) = .refuse code rest' ∧ code < 0) ∨
      ∃ x, (shellParser maxCapacity).look (f ++ rest) = .item x rest ∧
        x.1.shellSize.toInt = headerSize f := by
  have hheader := hf.header
  have hsize := hf.size
  have happend : (EpShell.ofBytes (f ++ rest)).toHost.shellSize.toInt = headerSize f :=
    headerSize_append hheader rest
  have hlong : ¬ (f ++ rest).length < sizeofEpShell := by
    rw [List.length_append]
    omega
  have hbody : ¬ (((f ++ rest).drop sizeofEpShell).length : ℤ) < headerSize f := by
    rw [List.length_drop, List.length_append]
    omega
  have hrest : ((f ++ rest).drop sizeofEpShell).drop (headerSize f).toNat = rest := by
    rw [List.drop_drop]
    exact List.drop_left' (by omega)
  simp only [shellParser, shellLook, if_neg hlong, happend, if_neg hbody, hrest]
  split_ifs
  · exact .inl ⟨_, _, rfl, by decide⟩
  · exact .inl ⟨_, _, rfl, by decide⟩
  · exact .inr ⟨_, rfl, happend⟩

theorem look_brokenOff (maxCapacity : ℤ) {tail : List UInt8} (h : BrokenOff tail) :
    (∃ code rest, (shellParser maxCapacity).look tail = .refuse code rest ∧ code < 0) ∨
      (shellParser maxCapacity).look tail = .more (if sizeofEpShell ≤ tail.length then 1 else 0) := by
  simp only [shellParser, shellLook]
  by_cases hshort : tail.length < sizeofEpShell
  · rw [if_pos hshort, if_neg (by omega)]
    exact .inr rfl
  · have hbody : ((tail.drop sizeofEpShell).length : ℤ) < headerSize tail := by
      have hpart := h.resolve_left hshort
      rw [List.length_drop]
      omega
    rw [if_neg hshort, if_pos (not_lt.mp hshort)]
    split_ifs with hmagic hbig hpart
    · exact .inl ⟨_, _, rfl, by decide⟩
    · exact .inl ⟨_, _, rfl, by decide⟩
    · exact .inr rfl
    · exact absurd hbody hpart

/-- A run that is not refused takes the whole frames, and its code tells where it stopped. -/
theorem run_framing (maxCapacity : ℤ) {frames : List (List UInt8)} {tail : List UInt8}
    (hwhole : ∀ f ∈ frames, WholeFrame f) (htail : BrokenOff tail) :
    (∀ x ∈ ((shellParser maxCapacity).run (frames.flatten ++ tail)).items,
      0 ≤ x.1.shellSize.toInt) ∧
    (0 ≤ ((shellParser maxCapacity).run (frames.flatten ++ tail)).code →
      ((shellParser maxCapacity).run (frames.flatten ++ tail)).items.length = frames.length ∧
      ((shellParser maxCapacity).run (frames.flatten ++ tail)).code =
        if sizeofEpShell ≤ tail.length then 1 else 0) := by
  induction frames with
  | nil =>
    rw [List.flatten_nil, List.nil_append]
    obtain ⟨code, rest, hlook, hneg⟩ | hlook := look_brokenOff maxCapacity htail
    · rw [(shellParser maxCapacity).run_refuse hlook]
      exact ⟨by simp, fun hcode => absurd hcode (not_le.mpr hneg)⟩
    · rw [(shellParser maxCapacity).run_more hlook]
      exact ⟨by simp, fun _ => ⟨rfl, rfl⟩⟩
  | cons f frames ih =>
    rw [List.forall_mem_cons] at hwhole
    obtain ⟨hsizes, hrun⟩ := ih hwhole.2
    rw [List.flatten_cons, List.append_assoc]
    obtain ⟨code, rest, hlook, hneg⟩ | ⟨x, hlook, hsize⟩ :=
      look_wholeFrame maxCapacity hwhole.1 (frames.flatten ++ tail)
    · rw [(shellParser maxCapacity).run_refuse hlook]
      exact ⟨by simp, fun hcode => absurd hcode (not_le.mpr hneg)⟩
    · rw [(shellParser maxCapacity).run_item hlook]
      refine ⟨List.forall_mem_cons.mpr ⟨?_, hsizes⟩, fun hcode => ?_⟩
      · rw [hsize, hwhole.1.size]
        have := hwhole.1.header
        omega
      · obtain ⟨hlen, hcode'⟩ := hrun hcode
        exact ⟨by simp [Out.push, hlen], hcode'⟩

/-! ## A call -/

/-- Unless the ring buffer outgrows an `int`, a chunk that is not taken whole is an error;
otherwise the loop sees it behind the bytes that were there. -/
theorem epIoEnqueue_cases {ioMgr : EpIoMgr} {fd : ℤ} {v : IoView} (h : HasView ioMgr fd v)
    (inbuf : List UInt8) (hint : ¬ v.Outgrows ioMgr.maxCapacity inbuf.length) (fuel : ℕ)
    (fresh : ℕ → ℕ → ℤ → UInt8) :
    (∃ ioMgr', epIoEnqueue fuel fresh ioMgr fd inbuf = some (ioMgr', -2, {})) ∨
    ∃ child, child.Ready ioMgr.maxCapacity ∧ child.raw = v.raw ++ inbuf ∧
      epIoEnqueue fuel fresh ioMgr fd inbuf =
        (enqueueLoop ioMgr.maxCapacity fuel (fun i => fresh (i + 1)) child).map fun r =>
          ({ ioMgr with ioList := replaceIo r.1 ioMgr.ioList }, r.2.1, r.2.2) := by
  obtain ⟨io, hfind, hready, rfl⟩ := h
  rw [← hready.outgrows_iff] at hint
  obtain ⟨hready', -, hwrited, hraw⟩ := hready.write (fresh 0 0) inbuf
  by_cases hshort : (epRbWrite (fresh 0 0) io.recv inbuf inbuf.length).2 < inbuf.length
  · exact .inl ⟨_, by simp only [epIoEnqueue, hfind, epRbTryWrite, if_neg hint, if_pos hshort]; rfl⟩
  · rw [List.take_of_length_le (by omega)] at hraw
    exact .inr ⟨_, hready', hraw, by
      simp only [epIoEnqueue, hfind, epRbTryWrite, if_neg hint, if_neg hshort]⟩

/-- Where the sizes are not negative, a call returns unless the ring buffer outgrows an `int`;
and one that returns no error code returns 1 exactly if it dispatched a frame and 0 exactly if it
did not, if and only if there is a whole frame in the bytes exactly when a whole header is left
behind the last one. -/
theorem epIoEnqueue_code_iff (ioMgr : EpIoMgr) (fd : ℤ) (v : IoView) (inbuf : List UInt8)
    (h : HasView ioMgr fd v) (hsizes : NonnegSizes (v.raw ++ inbuf)) (fuel : ℕ)
    (hfuel : (v.raw ++ inbuf).length < fuel) (fresh : ℕ → ℕ → ℤ → UInt8) :
    (∃ frames tail, Framing (v.raw ++ inbuf) frames tail) ∧
    ((epIoEnqueue fuel fresh ioMgr fd inbuf).isSome ↔
      ¬ v.Outgrows ioMgr.maxCapacity inbuf.length) ∧
    ∀ ioMgr' code log, epIoEnqueue fuel fresh ioMgr fd inbuf = some (ioMgr', code, log) →
      0 ≤ code → ∀ frames tail, Framing (v.raw ++ inbuf) frames tail →
        (CodeMeans code log ↔ (frames ≠ [] ↔ sizeofEpShell ≤ tail.length)) := by
  have hframing := hsizes.exists_framing le_rfl
  refine ⟨hframing, ?_⟩
  by_cases hint : v.Outgrows ioMgr.maxCapacity inbuf.length
  · have hnone := epIoEnqueue_outgrown h hint fuel fresh
    simp [hnone, hint]
  obtain ⟨ioMgr', hcall⟩ | ⟨child, hready, hraw, hcall⟩ :=
    epIoEnqueue_cases h inbuf hint fuel fresh
  · refine ⟨by simp [hcall, hint], fun ioMgr₁ code log heq hcode => ?_⟩
    rw [hcall] at heq
    cases heq
    exact absurd hcode (by decide)
  · obtain ⟨frames, tail, heq, hwhole, htail⟩ := hframing
    have hnonneg := (run_framing ioMgr.maxCapacity hwhole htail).1
    rw [← heq, ← hraw] at hnonneg
    rw [← hraw] at hfuel
    obtain ⟨io', log, hloop, hrun⟩ :=
      enqueueLoop_run hready hfuel hnonneg fun i => fresh (i + 1)
    rw [hcall, hloop, Option.map_some]
    refine ⟨by simp [hint], fun ioMgr₁ code log₁ hret hcode frames tail hframing => ?_⟩
    cases hret
    have hshows := hrun.shows.length_eq
    rw [hraw, hframing.eq] at hcode hshows ⊢
    obtain ⟨hlen, hexit⟩ := (run_framing ioMgr.maxCapacity hframing.whole hframing.tail).2 hcode
    have hnil : log.dispatched = [] ↔ frames = [] := by
      rw [← List.length_eq_zero_iff, hshows, hlen, List.length_eq_zero_iff]
    rw [hexit]
    by_cases hheader : sizeofEpShell ≤ tail.length
    · simp only [hheader, iff_true]
      constructor
      · exact fun hmeans hfr => hmeans.one.mp rfl (hnil.mpr hfr)
      · intro hne
        exact ⟨by simp [hnil, hne], by simp [hnil, hne]⟩
    · simp only [hheader, iff_false, not_not]
      constructor
      · exact fun hmeans => hnil.mp (hmeans.zero.mp rfl)
      · intro hfr
        exact ⟨by simp [hnil, hfr], by simp [hnil, hfr]⟩

/-! ## Single headers -/

/-- The header of a message with a body of the size. -/
def headerBytes (size : BitVec 32) : List UInt8 :=
  ({ fipsShell with shellSize := size } : EpShell).toNetwork.bytes

theorem nonnegSizes_short {bs : List UInt8} (hlen : bs.length < 2 * sizeofEpShell)
    (h : 0 ≤ headerSize bs) : NonnegSizes bs := by
  intro frames rest heq hwhole hrest
  cases frames with
  | nil =>
    obtain rfl : bs = rest := by simpa using heq
    exact h
  | cons f frames =>
    have hheader := (hwhole f List.mem_cons_self).header
    rw [heq, List.flatten_cons, List.length_append, List.length_append] at hlen
    omega

/-- What a new connection does with a chunk. -/
def firstChunk (chunk : List UInt8) : Option (EpIoMgr × ℤ × EnqueueLog) :=
  epIoEnqueue 24 (fun _ _ _ => 0) (epIoAdd (fipsMgr .server 9) 5) 5 chunk

/-- The first five bytes of a header: nothing is dispatched, and 0 says so. -/
theorem epIoEnqueue_code_part :
    ∃ ioMgr code log, firstChunk ((headerBytes 0).take 5) = some (ioMgr, code, log) ∧
      CodeMeans code log := by
  have hcode : (firstChunk ((headerBytes 0).take 5)).map (·.2.1) = some 0 := by decide
  have hview : HasView (epIoAdd (fipsMgr .server 9) 5) 5 (.start 4096) :=
    (epIoAdd_hasView (by decide) (by decide) rfl).1
  obtain ⟨-, -, hiff⟩ := epIoEnqueue_code_iff (epIoAdd (fipsMgr .server 9) 5) 5 (.start 4096)
    ((headerBytes 0).take 5) hview (nonnegSizes_short (by decide) (by decide)) 24 (by decide)
    fun _ _ _ => 0
  obtain ⟨⟨ioMgr, code, log⟩, hcall, hzero⟩ := Option.map_eq_some_iff.mp hcode
  obtain rfl : code = 0 := hzero
  exact ⟨ioMgr, 0, log, hcall, (hiff _ _ _ hcall le_rfl [] _ ⟨rfl, by simp, .inl (by decide)⟩).mpr
    (iff_of_false (not_not_intro rfl) (by decide))⟩

/-- A whole frame without a body is dispatched and 0 returned, and for a header with nothing
behind it 1. -/
theorem epIoEnqueue_code_header :
    (NonnegSizes (headerBytes 0) ∧ ∃ ioMgr log,
      firstChunk (headerBytes 0) = some (ioMgr, 0, log) ∧ log.dispatched.length = 1 ∧
        ¬ CodeMeans 0 log) ∧
    (NonnegSizes (headerBytes 5) ∧ ∃ ioMgr log,
      firstChunk (headerBytes 5) = some (ioMgr, 1, log) ∧ log.dispatched = [] ∧
        ¬ CodeMeans 1 log) := by
  have hwhole : (firstChunk (headerBytes 0)).map (fun r => (r.2.1, r.2.2.dispatched.length)) =
      some (0, 1) := by decide
  have hpart : (firstChunk (headerBytes 5)).map (fun r => (r.2.1, r.2.2.dispatched.length)) =
      some (1, 0) := by decide
  obtain ⟨⟨ioMgr, code, log⟩, hcall, hr⟩ := Option.map_eq_some_iff.mp hwhole
  obtain ⟨⟨ioMgr', code', log'⟩, hcall', hr'⟩ := Option.map_eq_some_iff.mp hpart
  obtain ⟨rfl, hlen⟩ := Prod.mk.inj hr
  obtain ⟨rfl, hlen'⟩ := Prod.mk.inj hr'
  have hnil : log'.dispatched = [] := List.eq_nil_of_length_eq_zero hlen'
  refine ⟨⟨nonnegSizes_short (by decide) (by decide), ioMgr, log, hcall, hlen, fun hmeans => ?_⟩,
    nonnegSizes_short (by decide) (by decide), ioMgr', log', hcall', hnil, fun hmeans => ?_⟩
  · rw [hmeans.zero.mp rfl] at hlen
    cases hlen
  · exact hmeans.one.mp rfl hnil

end Youmenu.Eventpack
