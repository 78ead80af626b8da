import Coht.RawIoctl.Ioctl

/-!
# When raw I/O does what is asked for

`Outcome.Served` is what is expected of a raw I/O request, whatever fails on the way: accesses
inside the window, buffers that are freed once, the bytes that were asked for on success, and
nothing at all on a device that is not installed. The drivers free the argument twice and the
data never when a read is cut short or the data of a write cannot be copied, they look neither
at the offset and the size nor at whether the device is installed, the VD80 moves whole words
only, and the ICV196 does not see bus errors. `Sound` is what is left.
-/

namespace Coht.RawIoctl

open Coht.Lib

variable {d : Driver}

/-- The bytes of the window that an access is to. -/
def Access.bytes (d : Driver) (a : Access) : List Nat :=
  List.range' (d.wordSize * a.word) d.wordSize

/-- What is expected of a request on a device. -/
structure Outcome.Served (o : Outcome d) (w : World d) (dev : Device d) (dir : Dir)
    (riob : Riob d) : Prop where
  inside : ∀ a ∈ o.accesses, dev.mapped = true ∧ ∀ b ∈ a.bytes d, b < d.windowSize
  balanced : o.books.Balanced
  bytes : o.cc = 0 →
    o.accesses.flatMap (Access.bytes d) = List.range' riob.boffs.toNat riob.bsize.toNat
  done : o.cc = 0 → ∀ a ∈ o.accesses, a.done = true
  read : o.cc = 0 → dir = .read →
    o.dev = dev ∧ o.user = o.accesses.map fun a => dev.mem a.word
  written : o.cc = 0 → dir = .write → ∀ j, o.dev.mem j =
    if riob.ioff ≤ j ∧ j < riob.ioff + riob.icnt then w.user (j - riob.ioff) else dev.mem j
  refused : dev.mapped = false → o.cc ≠ 0 ∧ o.accesses = []

/-- The conditions for that, once both buffers are there. -/
structure Sound (w : World d) (dev : Device d) (dir : Dir) (riob : Riob d) : Prop where
  complete : dir = .read → ∀ i < riob.icnt, w.stops i = false
  copied : dir = .write → w.copyBuf = true
  inside : dev.mapped = true → ∀ i < riob.icnt, (∀ j < i, w.stops j = false) →
    d.wordSize * (riob.ioff + i) + d.wordSize ≤ d.windowSize
  absent : dev.mapped = false →
    riob.icnt = 0 ∧ (w.copyBuf = false ∨ w.copyToArg = false)
  exact : dev.mapped = true → (∀ i < riob.icnt, w.stops i = false) → w.copyBuf = true →
    w.copyToArg = true → (∀ i < riob.icnt, w.busError i = false) ∧
      d.wordSize ∣ riob.bsize.toNat ∧ (riob.bsize.toNat = 0 ∨ d.wordSize ∣ riob.boffs.toNat)

/-! ## What the loops leave -/

section Loops

variable {w : World d} {dev : Device d} {icnt ioff n : Nat}

/-- The accesses of a request. -/
def accessesOf (w : World d) (icnt ioff : Nat) : List Access :=
  (List.range' 0 (made w.stops icnt 0)).map (w.access ioff)

theorem foldl_append_both {α β : Type} {f : Nat → α} {g : Nat → β} {is : List Nat}
    {s : List α × List β} :
    is.foldl (fun (l, l') i => (l ++ [f i], l' ++ [g i])) s =
      (s.1 ++ is.map f, s.2 ++ is.map g) := by
  induction is generalizing s with
  | nil => simp
  | cons i is ih => simp [ih]

theorem foldl_snd_append {α β : Type} {f : α → Nat → α} {g : Nat → β} {is : List Nat}
    {s : α × List β} :
    is.foldl (fun (m, l) i => (f m i, l ++ [g i])) s = (is.foldl f s.1, s.2 ++ is.map g) := by
  induction is generalizing s with
  | nil => simp
  | cons i is ih => simp [ih]

theorem rawRead_snd : (rawRead w dev icnt ioff).2 =
    ((List.range' 0 (made w.stops icnt 0)).map fun i =>
        if w.busError i then w.noise i else dev.mem (ioff + i),
      accessesOf w icnt ioff) := by
  rw [rawRead, rawLoop_snd, foldl_append_both]
  rfl

theorem rawWrite_snd {ibuf : Nat → d.Word} : (rawWrite w dev icnt ioff ibuf).2 =
    ((List.range' 0 (made w.stops icnt 0)).foldl (fun mem i =>
        if w.busError i then mem else Function.update mem (ioff + i) (ibuf i)) dev.mem,
      accessesOf w icnt ioff) := by
  rw [rawWrite, rawLoop_snd]
  exact foldl_snd_append (f := fun (mem : Nat → d.Word) i =>
    if w.busError i then mem else Function.update mem (ioff + i) (ibuf i)) (g := w.access ioff)

theorem rawRead_fst_iff : (rawRead w dev icnt ioff).1 = icnt ↔
    ∀ i < icnt, w.stops i = false :=
  rawLoop_zero_fst_iff

theorem rawWrite_fst_iff {ibuf : Nat → d.Word} : (rawWrite w dev icnt ioff ibuf).1 = icnt ↔
    ∀ i < icnt, w.stops i = false :=
  rawLoop_zero_fst_iff

theorem foldl_update {m : Nat} {mem : Nat → d.Word} {ibuf : Nat → d.Word} {j : Nat}
    (h : ∀ i < m, w.busError i = false) :
    (List.range' 0 m).foldl (fun mem i =>
      if w.busError i then mem else Function.update mem (ioff + i) (ibuf i)) mem j =
      if ioff ≤ j ∧ j < ioff + m then ibuf (j - ioff) else mem j := by
  induction m with
  | zero =>
    rw [if_neg (by omega)]
    rfl
  | succ m ih =>
    rw [List.range'_1_concat, List.foldl_append, List.foldl_cons, List.foldl_nil, Nat.zero_add,
      h m (Nat.lt_succ_self m), if_neg Bool.false_ne_true]
    by_cases hj : j = ioff + m
    · subst hj
      rw [Function.update_self, if_pos (by omega), Nat.add_sub_cancel_left]
    · rw [Function.update_of_ne hj, ih fun i hi => h i (by omega)]
      have hiff : (ioff ≤ j ∧ j < ioff + m) ↔ (ioff ≤ j ∧ j < ioff + (m + 1)) := by omega
      simp only [hiff]

theorem flatMap_bytes {m i : Nat} :
    ((List.range' i m).map (w.access ioff)).flatMap (Access.bytes d) =
      List.range' (d.wordSize * (ioff + i)) (d.wordSize * m) := by
  induction m generalizing i with
  | zero => rfl
  | succ m ih =>
    have hstep : d.wordSize * (ioff + (i + 1)) = d.wordSize * (ioff + i) + d.wordSize := by
      rw [← Nat.mul_succ]
      rfl
    have hlen : d.wordSize * (m + 1) = d.wordSize + d.wordSize * m := by
      rw [Nat.mul_succ, Nat.add_comm]
    rw [List.range'_succ, List.map_cons, List.flatMap_cons, ih, hstep, hlen,
      ← List.range'_append_1]
    rfl

theorem mem_accessesOf {a : Access} : a ∈ accessesOf w icnt ioff ↔
    ∃ i < icnt, (∀ j < i, w.stops j = false) ∧ w.access ioff i = a := by
  simp only [accessesOf, List.mem_map, List.mem_range'_1, Nat.zero_add, Nat.zero_le, true_and,
    lt_made_iff, and_assoc]

theorem accessesOf_eq_nil_iff : accessesOf w icnt ioff = [] ↔ icnt = 0 := by
  constructor
  · intro h
    by_cases hzero : icnt = 0
    · exact hzero
    · have hmem : w.access ioff 0 ∈ accessesOf w icnt ioff :=
        mem_accessesOf.mpr ⟨0, by omega, fun j hj => absurd hj (by omega), rfl⟩
      rw [h] at hmem
      cases hmem
  · rintro rfl
    rfl

theorem bytes_inside_iff {a : Access} : (∀ b ∈ a.bytes d, b < d.windowSize) ↔
    d.wordSize * a.word + d.wordSize ≤ d.windowSize := by
  have hpos := d.wordSize_pos
  simp only [Access.bytes, List.mem_range'_1]
  constructor
  · intro h
    have hlast := h (d.wordSize * a.word + d.wordSize - 1) (by omega)
    omega
  · rintro h b ⟨-, hb⟩
    omega

end Loops

/-! ## Outcomes whose books are balanced -/

section Settled

variable {w : World d} {dev : Device d} {dir : Dir} {riob : Riob d} {o : Outcome d}

/-- What a request leaves when it frees what it has to. -/
structure Outcome.Settled (o : Outcome d) (w : World d) (dev : Device d) (dir : Dir)
    (riob : Riob d) : Prop where
  accesses : o.accesses = accessesOf w riob.icnt riob.ioff
  books : o.books = {}
  success : o.cc = 0 ↔
    (∀ i < riob.icnt, w.stops i = false) ∧ w.copyBuf = true ∧ w.copyToArg = true
  read : o.cc = 0 → dir = .read → o.dev = dev ∧ o.user =
    (List.range' 0 (made w.stops riob.icnt 0)).map fun i =>
      if w.busError i then w.noise i else dev.mem (riob.ioff + i)
  written : o.cc = 0 → dir = .write → o.dev.mem =
    (List.range' 0 (made w.stops riob.icnt 0)).foldl (fun mem i =>
      if w.busError i then mem else Function.update mem (riob.ioff + i) (w.user i)) dev.mem

theorem made_eq_icnt (h : ∀ i < riob.icnt, w.stops i = false) :
    made w.stops riob.icnt 0 = riob.icnt :=
  made_eq fun k hk => by rw [Nat.zero_add, h k hk]

theorem accessesOf_bytes (h : ∀ i < riob.icnt, w.stops i = false) :
    (accessesOf w riob.icnt riob.ioff).flatMap (Access.bytes d) =
      List.range' (d.wordSize * riob.ioff) (d.wordSize * riob.icnt) := by
  rw [accessesOf, made_eq_icnt h, flatMap_bytes, Nat.add_zero]

theorem range'_words_iff :
    List.range' (d.wordSize * riob.ioff) (d.wordSize * riob.icnt) =
      List.range' riob.boffs.toNat riob.bsize.toNat ↔
      d.wordSize ∣ riob.bsize.toNat ∧
        (riob.bsize.toNat = 0 ∨ d.wordSize ∣ riob.boffs.toNat) := by
  constructor
  · intro h
    have hlen := congrArg List.length h
    rw [List.length_range', List.length_range'] at hlen
    refine ⟨⟨riob.icnt, hlen.symm⟩, ?_⟩
    by_cases hzero : riob.bsize.toNat = 0
    · exact Or.inl hzero
    · have hhead := congrArg List.head? h
      rw [List.head?_range', List.head?_range', hlen, if_neg hzero, if_neg hzero] at hhead
      exact Or.inr ⟨riob.ioff, (Option.some.inj hhead).symm⟩
  · rintro ⟨hsize, hoffset⟩
    rw [Riob.icnt, Nat.mul_div_cancel' hsize]
    rcases hoffset with hzero | hoffset
    · rw [hzero]
      rfl
    · rw [Riob.ioff, Nat.mul_div_cancel' hoffset]

theorem Outcome.Settled.sound (h : o.Settled w dev dir riob) (hserved : o.Served w dev dir riob)
    (hcomplete : dir = .read → ∀ i < riob.icnt, w.stops i = false)
    (hcopied : dir = .write → w.copyBuf = true) : Sound w dev dir riob where
  complete := hcomplete
  copied := hcopied
  inside := by
    intro _ i hi hpre
    have hmem : w.access riob.ioff i ∈ o.accesses := by
      rw [h.accesses]
      exact mem_accessesOf.mpr ⟨i, hi, hpre, rfl⟩
    exact bytes_inside_iff.mp (hserved.inside _ hmem).2
  absent := by
    intro habsent
    obtain ⟨hcc, hnil⟩ := hserved.refused habsent
    rw [h.accesses, accessesOf_eq_nil_iff] at hnil
    refine ⟨hnil, ?_⟩
    rw [Ne, h.success] at hcc
    cases hbuf : w.copyBuf with
    | false => exact Or.inl rfl
    | true =>
      cases harg : w.copyToArg with
      | false => exact Or.inr rfl
      | true => exact absurd ⟨fun i hi => absurd hi (by omega), hbuf, harg⟩ hcc
  exact := by
    intro _ hall hbuf harg
    have hcc : o.cc = 0 := h.success.mpr ⟨hall, hbuf, harg⟩
    constructor
    · intro i hi
      have hmem : w.access riob.ioff i ∈ o.accesses := by
        rw [h.accesses]
        exact mem_accessesOf.mpr ⟨i, hi, fun j hj => hall j (by omega), rfl⟩
      simpa [World.access] using hserved.done hcc _ hmem
    · have hbytes := hserved.bytes hcc
      rw [h.accesses, accessesOf_bytes hall] at hbytes
      exact range'_words_iff.mp hbytes

theorem Outcome.Settled.served (h : o.Settled w dev dir riob) (hsound : Sound w dev dir riob) :
    o.Served w dev dir riob := by
  have hmapped : o.cc = 0 → dev.mapped = true := by
    intro hcc
    cases hm : dev.mapped with
    | true => rfl
    | false =>
      obtain ⟨-, hbuf, harg⟩ := h.success.mp hcc
      rcases (hsound.absent hm).2 with hno | hno
      · exact absurd hbuf (by rw [hno]; exact Bool.false_ne_true)
      · exact absurd harg (by rw [hno]; exact Bool.false_ne_true)
  have hexact : o.cc = 0 → (∀ i < riob.icnt, w.stops i = false) ∧
      (∀ i < riob.icnt, w.busError i = false) ∧ d.wordSize ∣ riob.bsize.toNat ∧
        (riob.bsize.toNat = 0 ∨ d.wordSize ∣ riob.boffs.toNat) := by
    intro hcc
    obtain ⟨hall, hbuf, harg⟩ := h.success.mp hcc
    exact ⟨hall, hsound.exact (hmapped hcc) hall hbuf harg⟩
  constructor
  case inside =>
    intro a ha
    rw [h.accesses] at ha
    obtain ⟨i, hi, hpre, rfl⟩ := mem_accessesOf.mp ha
    cases hm : dev.mapped with
    | true => exact ⟨rfl, bytes_inside_iff.mpr (hsound.inside hm i hi hpre)⟩
    | false => exact absurd (hsound.absent hm).1 (by omega)
  case balanced =>
    rw [h.books]
    exact ⟨fun _ => rfl, rfl⟩
  case bytes =>
    intro hcc
    obtain ⟨hall, -, hwords⟩ := hexact hcc
    rw [h.accesses, accessesOf_bytes hall]
    exact range'_words_iff.mpr hwords
  case done =>
    intro hcc a ha
    rw [h.accesses] at ha
    obtain ⟨i, hi, -, rfl⟩ := mem_accessesOf.mp ha
    simp [World.access, (hexact hcc).2.1 i hi]
  case read =>
    intro hcc hread
    obtain ⟨hall, hbus, -⟩ := hexact hcc
    obtain ⟨hdev, huser⟩ := h.read hcc hread
    refine ⟨hdev, ?_⟩
    rw [huser, h.accesses, accessesOf, made_eq_icnt hall, List.map_map]
    refine List.map_congr_left fun i hi => ?_
    have hlt := (List.mem_range'_1.mp hi).2
    rw [hbus i (by omega), if_neg Bool.false_ne_true]
    rfl
  case written =>
    intro hcc hwrite j
    obtain ⟨hall, hbus, -⟩ := hexact hcc
    rw [h.written hcc hwrite, made_eq_icnt hall, foldl_update hbus]
  case refused =>
    intro hm
    obtain ⟨hzero, -⟩ := hsound.absent hm
    refine ⟨fun hcc => ?_, ?_⟩
    · exact absurd (hmapped hcc) (by rw [hm]; exact Bool.false_ne_true)
    · rw [h.accesses, accessesOf_eq_nil_iff]
      exact hzero

end Settled

/-! ## The requests -/

section Requests

variable {w : World d} {dev : Device d} {dir : Dir} {riob : Riob d} {o : Outcome d}

/-- The books when both buffers have been allocated. -/
def bothBuffers : Books := (Ledger.acquire Buffer.arb {}).acquire .ibuf

theorem bothBuffers_released : (bothBuffers.release .ibuf).release .arb = {} := by
  rw [bothBuffers, Ledger.release_acquire, Ledger.release_acquire]

theorem not_balanced_of_ival : ¬ ((bothBuffers.release .arb).release .arb).Balanced := by
  refine Ledger.not_balanced_of_held (r := .ibuf) ?_
  rw [Ledger.release_held_of_ne (by decide), Ledger.release_held_of_ne (by decide), bothBuffers,
    Ledger.acquire_held, if_pos rfl]
  exact Nat.succ_ne_zero _

theorem cc_ne_zero {e : Int} (h : 0 < e) : -e ≠ 0 := by omega

theorem shortTransfer_pos (d : Driver) : 0 < d.shortTransfer := by
  cases d with
  | icv196 => exact by decide
  | vd80 => exact by decide

theorem served_of_refused (haccesses : o.accesses = []) (hbooks : o.books = {})
    (hcc : o.cc ≠ 0) : o.Served w dev dir riob where
  inside := by
    intro a ha
    rw [haccesses] at ha
    cases ha
  balanced := by
    rw [hbooks]
    exact ⟨fun _ => rfl, rfl⟩
  bytes := fun h => absurd h hcc
  done := fun h => absurd h hcc
  read := fun h => absurd h hcc
  written := fun h => absurd h hcc
  refused := fun _ => ⟨hcc, haccesses⟩

theorem finish_cc_iff : (finish w o).cc = 0 ↔ w.copyToArg = true := by
  cases h : w.copyToArg with
  | true => simp [finish, h]
  | false => simp [finish, h, eacces]

theorem finish_accesses : (finish w o).accesses = o.accesses := by
  cases h : w.copyToArg with
  | true => simp [finish, h]
  | false => simp [finish, h]

theorem finish_books : (finish w o).books = o.books.release .arb := by
  cases h : w.copyToArg with
  | true => simp [finish, h]
  | false => simp [finish, h]

theorem finish_dev : (finish w o).dev = o.dev := by
  cases h : w.copyToArg with
  | true => simp [finish, h]
  | false => simp [finish, h]

theorem finish_user : (finish w o).user = o.user := by
  cases h : w.copyToArg with
  | true => simp [finish, h]
  | false => simp [finish, h]

theorem rawReadCase_settled (hall : ∀ i < riob.icnt, w.stops i = false) :
    (rawReadCase w dev riob bothBuffers).Settled w dev .read riob := by
  have hfst := (@rawRead_fst_iff _ _ dev _ riob.ioff).mpr hall
  have hsnd := @rawRead_snd _ w dev riob.icnt riob.ioff
  rw [rawReadCase]
  generalize rawRead w dev riob.icnt riob.ioff = r at hfst hsnd
  obtain ⟨i, ibuf, accesses⟩ := r
  obtain ⟨rfl, rfl⟩ := Prod.mk.inj hsnd
  dsimp only at hfst ⊢
  rw [if_neg (not_not.mpr hfst)]
  cases hbuf : w.copyBuf with
  | false =>
    have hcc : -eacces ≠ 0 := by decide
    exact { accesses := rfl
            books := bothBuffers_released
            success := iff_of_false hcc fun h => by simp [hbuf] at h
            read := fun h => absurd h hcc
            written := fun h => absurd h hcc }
  | true =>
    exact { accesses := finish_accesses
            books := finish_books.trans bothBuffers_released
            success := finish_cc_iff.trans ⟨fun h => ⟨hall, hbuf, h⟩, fun h => h.2.2⟩
            read := fun _ _ => ⟨finish_dev, finish_user⟩
            written := fun _ h => by cases h }

theorem rawReadCase_served_iff :
    (rawReadCase w dev riob bothBuffers).Served w dev .read riob ↔ Sound w dev .read riob := by
  by_cases hall : ∀ i < riob.icnt, w.stops i = false
  · have hsettled := @rawReadCase_settled _ _ dev _ hall
    constructor
    · intro hserved
      exact hsettled.sound hserved (fun _ => hall) (fun h => by cases h)
    · exact hsettled.served
  · refine iff_of_false (fun hserved => ?_) fun hsound => hall (hsound.complete rfl)
    have hfst : (rawRead w dev riob.icnt riob.ioff).1 ≠ riob.icnt :=
      fun h => hall (rawRead_fst_iff.mp h)
    have hbooks := hserved.balanced
    rw [rawReadCase] at hbooks
    dsimp only at hbooks
    rw [if_pos hfst] at hbooks
    exact not_balanced_of_ival hbooks

theorem rawWriteCase_settled (hbuf : w.copyBuf = true) :
    (rawWriteCase w dev riob bothBuffers).Settled w dev .write riob := by
  have hiff := @rawWrite_fst_iff _ w dev riob.icnt riob.ioff w.user
  have hsnd := @rawWrite_snd _ w dev riob.icnt riob.ioff w.user
  rw [rawWriteCase, hbuf]
  generalize rawWrite w dev riob.icnt riob.ioff w.user = r at hiff hsnd
  obtain ⟨i, mem, accesses⟩ := r
  obtain ⟨rfl, rfl⟩ := Prod.mk.inj hsnd
  dsimp only at hiff ⊢
  rw [if_neg (by decide)]
  by_cases hfst : i = riob.icnt
  · rw [if_neg (not_not.mpr hfst)]
    exact { accesses := finish_accesses
            books := finish_books.trans bothBuffers_released
            success := finish_cc_iff.trans ⟨fun h => ⟨hiff.mp hfst, hbuf, h⟩, fun h => h.2.2⟩
            read := fun _ h => by cases h
            written := fun _ _ => congrArg Device.mem finish_dev }
  · rw [if_pos hfst]
    have hcc : -d.shortTransfer ≠ 0 := cc_ne_zero (shortTransfer_pos d)
    exact { accesses := rfl
            books := bothBuffers_released
            success := iff_of_false hcc fun h => hfst (hiff.mpr h.1)
            read := fun h => absurd h hcc
            written := fun h => absurd h hcc }

theorem rawWriteCase_served_iff :
    (rawWriteCase w dev riob bothBuffers).Served w dev .write riob ↔ Sound w dev .write riob := by
  cases hbuf : w.copyBuf with
  | true =>
    have hsettled := @rawWriteCase_settled _ _ dev riob hbuf
    constructor
    · intro hserved
      exact hsettled.sound hserved (fun h => by cases h) (fun _ => hbuf)
    · exact hsettled.served
  | false =>
    refine iff_of_false (fun hserved => ?_) fun hsound => ?_
    · have hbooks := hserved.balanced
      rw [rawWriteCase, hbuf] at hbooks
      exact not_balanced_of_ival hbooks
    · have hcopied := hsound.copied rfl
      rw [hbuf] at hcopied
      cases hcopied

/-- A raw I/O request, on whatever device, does what is expected if and only if it is refused
when it is opened, or when one of the first two steps or the allocation of the data fails, or
its conditions are met. -/
theorem request_served_iff (w : World d) (devs : Nat → Device d) (lun : Nat) (dir : Dir)
    (riob : Riob d) :
    (request w devs lun dir riob).Served w (devs lun) dir riob ↔
      (lun < maxDevices → w.kmallocArb = true → w.copyFromArg = true → w.kmallocBuf = true →
        Sound w (devs lun) dir riob) := by
  rw [request]
  by_cases hlun : lun ≥ maxDevices
  · rw [if_pos hlun]
    exact iff_of_true (served_of_refused rfl rfl (cc_ne_zero (by decide : 0 < enodev)))
      fun h => absurd hlun (by omega)
  · rw [if_neg hlun, ioctl]
    cases harb : w.kmallocArb with
    | false =>
      exact iff_of_true (served_of_refused rfl rfl (cc_ne_zero (by decide : 0 < enomem)))
        fun _ h => by cases h
    | true =>
      have hfreed : (Ledger.acquire Buffer.arb {}).release .arb = {} := Ledger.release_acquire
      cases hcopy : w.copyFromArg with
      | false =>
        exact iff_of_true (served_of_refused rfl hfreed (cc_ne_zero (by decide : 0 < eacces)))
          fun _ _ h => by cases h
      | true =>
        cases hbuf : w.kmallocBuf with
        | false =>
          exact iff_of_true
            (served_of_refused rfl hfreed (cc_ne_zero (by decide : 0 < enomem)))
            fun _ _ _ h => by cases h
        | true =>
          have hsimp : (lun < maxDevices → true = true → true = true → true = true →
              Sound w (devs lun) dir riob) ↔ Sound w (devs lun) dir riob :=
            ⟨fun h => h (by omega) rfl rfl rfl, fun h _ _ _ _ => h⟩
          rw [hsimp]
          cases dir with
          | read => exact rawReadCase_served_iff
          | write => exact rawWriteCase_served_iff

end Requests

/-- A device that has been installed. -/
def installed : Device .icv196 := { mapped := true, mem := fun _ => 0 }

/-- The data of a write to an ICV196 cannot be copied. -/
def badPointer : World .icv196 := { copyBuf := false }

theorem request_not_served :
    ¬ (request badPointer (fun _ => installed) 0 .write ⟨0, 4⟩).Served badPointer installed
      .write ⟨0, 4⟩ :=
  fun h => not_balanced_of_ival h.balanced

end Coht.RawIoctl
