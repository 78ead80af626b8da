import Coht.Xmem.Markers
import Coht.Lib.Word

/-!
# Partial accesses to tables with markers

Is a table a linear memory for its users? `Linear` says so for the pieces of
`n` elements at the offset `o`: what was sent is received, the other elements
are read as before, and nothing outside the table and the bounce buffer is
touched. Without markers this holds for every piece. With markers it holds for
the whole table only, since a header and a footer lie in other places for each
piece, among the data and the markers of the others, and the footer of a piece
that does not begin at 0 lies behind the bounce buffer.
-/

namespace Coht.Xmem

open Coht.Lib

/-! ## The marker masks of a process -/

/-- After any calls of `XmemSetMarkersMask()`. -/
def afterMasks (masks : List U32) : XmemLib := masks.foldl xmemSetMarkersMask {}

theorem and_and_all {mask c : U32} (hc : XmemMarkersALL &&& c = c) :
    mask &&& XmemMarkersALL &&& c = mask &&& c := by
  rw [BitVec.and_assoc, hc]

theorem cleanMask_and (mask : U32) :
    cleanMask (mask &&& XmemMarkersALL) = cleanMask mask := by
  have hall : mask &&& XmemMarkersALL &&& XmemMarkersALL =
      mask &&& XmemMarkersALL := and_and_all (by decide)
  unfold cleanMask
  rw [and_and_all (c := XmemMarkersENABLE) (by decide),
    and_and_all (c := XmemMarkersDISABLE) (by decide)]
  split
  · split
    · rfl
    · simp only [hall]
  · rfl

theorem cleanMask_mem (mask : U32) :
    cleanMask mask ∈ [(0x1 : U32), 0x2, 0x6, 0xE] := by
  have hlow : (mask &&& XmemMarkersALL).toNat < 2 ^ 4 := by
    rw [toNat_and_low (k := 4) (m := XmemMarkersALL) (by decide)]
    exact Nat.mod_lt _ (by decide)
  have hcases : ∀ low < 2 ^ 4,
      cleanMask (BitVec.ofNat 32 low) ∈ [(0x1 : U32), 0x2, 0x6, 0xE] := by
    decide
  have hmem := hcases _ hlow
  rwa [BitVec.ofNat_toNat, BitVec.setWidth_eq, cleanMask_and] at hmem

def Mode (lib : XmemLib) : Prop :=
  lib.libinitialized = true ∧ lib.markersMask ∈ [(0x1 : U32), 0x2, 0x6, 0xE]

theorem mode_set {lib : XmemLib} (h : lib.libinitialized = true) (mask : U32) :
    Mode (xmemSetMarkersMask lib mask) := by
  have hmem := cleanMask_mem mask
  have hne : cleanMask mask ≠ 0 := by
    intro hzero
    rw [hzero] at hmem
    revert hmem
    decide
  unfold xmemSetMarkersMask
  rw [if_pos hne]
  exact ⟨h, hmem⟩

theorem mode_afterMasks (masks : List U32) : Mode (afterMasks masks) := by
  suffices h : ∀ lib, Mode lib → Mode (masks.foldl xmemSetMarkersMask lib) from
    h {} ⟨rfl, by decide⟩
  induction masks with
  | nil => exact fun _ h => h
  | cons mask masks ih => exact fun _ h => ih _ (mode_set h.1 mask)

/-! ## What the calls do in each mode -/

structure Flags (lib : XmemLib) (disable enable atomic : Bool) : Prop where
  init : lib.libinitialized = true
  disable : lib.set XmemMarkersDISABLE = disable
  enable : lib.set XmemMarkersENABLE = enable
  atomic : lib.set XmemMarkersATOMIC = atomic

theorem Flags.of_mask {lib : XmemLib} {mask : U32}
    (hinit : lib.libinitialized = true) (h : lib.markersMask = mask) :
    Flags lib (decide (mask &&& XmemMarkersDISABLE ≠ 0))
      (decide (mask &&& XmemMarkersENABLE ≠ 0))
      (decide (mask &&& XmemMarkersATOMIC ≠ 0)) := by
  subst h
  exact ⟨hinit, rfl, rfl, rfl⟩

theorem Mode.flags {lib : XmemLib} (h : Mode lib) :
    lib.markersMask = XmemMarkersDISABLE ∧ Flags lib true false false ∨
    lib.markersMask ≠ XmemMarkersDISABLE ∧
      (Flags lib false true false ∨ Flags lib false true true) := by
  obtain ⟨hinit, hmem⟩ := h
  simp only [List.mem_cons, List.not_mem_nil, or_false] at hmem
  obtain hmask | hmask | hmask | hmask := hmem
  · exact .inl ⟨hmask, .of_mask hinit hmask⟩
  · exact .inr ⟨by rw [hmask]; decide, .inl (.of_mask hinit hmask)⟩
  · exact .inr ⟨by rw [hmask]; decide, .inr (.of_mask hinit hmask)⟩
  · exact .inr ⟨by rw [hmask]; decide, .inr (.of_mask hinit hmask)⟩

section Runs

variable {lib : XmemLib} {sur : Surroundings} {mem : Nat → U32}
  {buf : List U32} {o n : Nat}

theorem disabled_send (h : Flags lib true false false) :
    xmemSendTable lib sur buf o =
      (Prog.writeMany o buf >>= fun _ => .ret { err := .success }) := by
  simp [xmemSendTable, routinesSendTable, physEloff, h.init, h.disable,
    h.enable]

theorem disabled_recv (h : Flags lib true false false) :
    xmemRecvTable lib sur n o =
      (Prog.readMany o n >>= fun buf =>
        .ret { err := .success, buf := some buf }) := by
  simp [xmemRecvTable, checkMarkers, routinesRecvTable, physEloff, h.init,
    h.disable, h.enable, h.atomic]

def plainHeader (sur : Surroundings) (n : Nat) : List U32 :=
  [sur.rand, sur.stack.checksum, BitVec.ofNat 32 (n * 4)]

theorem plain_send (h : Flags lib false true false) :
    xmemSendTable lib sur buf o =
      (Prog.writeMany o (plainHeader sur buf.length) >>= fun _ =>
        Prog.writeMany (o + 3 + buf.length) [sur.rand] >>= fun _ =>
        Prog.writeMany (o + 3) buf >>= fun _ => .ret { err := .success }) := by
  simp [xmemSendTable, sendTable, routinesSendTable, hEloff, fEloff, physEloff,
    fillHf, plainHeader, Header.elems, XMEM_H_ELEMS, h.init, h.disable,
    h.enable, h.atomic]

def plainTable (sur : Surroundings) (mem : Nat → U32) (buf : List U32) (o : Nat) :
    Nat → U32 :=
  Prog.lay (Prog.lay (Prog.lay mem o (plainHeader sur buf.length))
    (o + 3 + buf.length) [sur.rand]) (o + 3) buf

theorem plain_send_run (h : Flags lib false true false) :
    (xmemSendTable lib sur buf o).run mem =
      ({ err := .success }, plainTable sur mem buf o) := by
  simp [plain_send h, plainTable]

theorem plainTable_header : plainTable sur mem buf o o = sur.rand := by
  unfold plainTable
  rw [Prog.lay_outside (.inl (by omega)), Prog.lay_outside (.inl (by omega))]
  exact Prog.lay_inside (i := 0) (l := plainHeader sur _) (Nat.succ_pos 2)

theorem plainTable_footer :
    plainTable sur mem buf o (o + 3 + buf.length) = sur.rand := by
  unfold plainTable
  rw [Prog.lay_outside (.inr (Nat.le_refl _))]
  exact Prog.lay_inside (i := 0) (l := [sur.rand]) Nat.one_pos

theorem plainTable_outside {i : Nat} (hi : i < o ∨ o + buf.length + 4 ≤ i) :
    plainTable sur mem buf o i = mem i := by
  have hfooter : [sur.rand].length = 1 := rfl
  have hheader : (plainHeader sur buf.length).length = 3 := rfl
  unfold plainTable
  rw [Prog.lay_outside (by omega), Prog.lay_outside (by omega),
    Prog.lay_outside (by omega)]

theorem evaluateHf_of_ne {header : Header} {footer : U32}
    {pub : Option (List U32)} (h : header.val ≠ footer) :
    evaluateHf lib header footer n pub = .incoherentMarkers := if_pos h

theorem evaluateHf_none {header : Header} {footer : U32}
    (h : header.val = footer) :
    evaluateHf lib header footer n none = .success := if_neg (not_not.mpr h)

theorem plain_recv (h : Flags lib false true false) :
    xmemRecvTable lib sur n o =
      .read o fun val => .read (o + 1) fun _ => .read (o + 2) fun _ =>
        .read (o + 3 + n) fun footer =>
          if val = footer then
            Prog.readMany (o + 3) n >>= fun buf =>
              .ret { err := .success, buf := some buf }
          else .ret { err := .incoherentMarkers } := by
  simp only [xmemRecvTable, checkMarkers, routinesRecvTable, hEloff, fEloff,
    physEloff, h.init, h.disable, h.enable, h.atomic, if_true,
    Bool.false_eq_true, if_false, XMEM_H_ELEMS, XMEM_F_ELEMS, Prog.readMany,
    Prog.bind_read, Prog.bind_ret, Prog.pure_eq]
  refine congrArg _ (funext fun val => congrArg _ (funext fun _ =>
    congrArg _ (funext fun _ => congrArg _ (funext fun footer => ?_))))
  by_cases heq : val = footer
  · rw [if_pos heq, evaluateHf_none heq]
    rfl
  · rw [if_neg heq, evaluateHf_of_ne heq]
    rfl

theorem plain_recv_run (h : Flags lib false true false) :
    (xmemRecvTable lib sur n o).run mem =
      (if mem o = mem (o + 3 + n) then
        { err := .success, buf := some ((List.range' (o + 3) n).map mem) }
      else { err := .incoherentMarkers }, mem) := by
  rw [plain_recv h, Prog.run, Prog.run, Prog.run, Prog.run]
  split
  · rw [Prog.run_bind, Prog.run_readMany, Prog.run_ret]
  · rfl

theorem plain_recv_touched (h : Flags lib false true false) :
    (xmemRecvTable lib sur n o).touched mem =
      o :: (o + 1) :: (o + 2) :: (o + 3 + n) ::
        if mem o = mem (o + 3 + n) then List.range' (o + 3) n else [] := by
  rw [plain_recv h, Prog.touched, Prog.touched, Prog.touched, Prog.touched]
  split
  · rw [Prog.touched_bind, Prog.touched_readMany, Prog.touched_ret,
      List.append_nil]
  · rfl

theorem headerAt_congr {c d : Nat → U32} (h : ∀ i < 3, c (o + i) = d (o + i)) :
    headerAt c o = headerAt d o := by
  unfold headerAt
  rw [h 1 (by decide), h 2 (by decide)]
  exact congrArg (Header.mk · _ _) (h 0 (by decide))

theorem headerAt_lay {header : Header} :
    headerAt (Prog.lay mem o header.elems) o = header := by
  simp [headerAt, Header.elems, Prog.lay, Function.update, Nat.add_assoc]

theorem fillHf_val {header : Header} {pub : Option (List U32)} :
    (fillHf lib sur.rand header n pub).1.val = sur.rand := by
  cases pub with
  | none => rfl
  | some buf =>
    unfold fillHf
    dsimp only
    split <;> rfl

theorem fillHf_checksum {header : Header}
    (hc : lib.set XmemMarkersCHECKSUM = true) :
    (fillHf lib sur.rand header n (some buf)).1.checksum =
      BitVec.ofNat 32 (calcAdler32 buf n) := by
  unfold fillHf
  dsimp only
  rw [if_pos hc]

theorem fillHf_footer {header : Header} {pub : Option (List U32)} :
    (fillHf lib sur.rand header n pub).2 = sur.rand := by
  cases pub with
  | none => rfl
  | some buf =>
    unfold fillHf
    dsimp only
    split <;> rfl

def atomicCells (lib : XmemLib) (sur : Surroundings) (buf : List U32) (o : Nat) :
    Nat → U32 :=
  let cells := Prog.lay sur.heap 3 buf
  let pub := (List.range' 3 buf.length).map cells
  let header := (fillHf lib sur.rand (headerAt cells 0) buf.length (some pub)).1
  Prog.lay (Prog.lay cells 0 header.elems) (o + 3 + buf.length) [sur.rand]

theorem atomic_send (h : Flags lib false true true) (hm : sur.malloc = true) :
    xmemSendTable lib sur buf o =
      (Prog.writeMany o
          ((List.range' 0 (buf.length + 4)).map (atomicCells lib sur buf o))
        >>= fun _ => .ret { err := .success, inside := decide (o = 0) }) := by
  have hend : (decide (XMEM_H_ELEMS + buf.length ≤ buf.length + XMEM_HF_ELEMS) &&
      decide (3 ≤ buf.length + XMEM_HF_ELEMS) &&
      decide (o + XMEM_H_ELEMS + buf.length + 1 ≤
        buf.length + XMEM_HF_ELEMS)) = decide (o = 0) := by
    rw [XMEM_H_ELEMS, XMEM_HF_ELEMS, ← Bool.decide_and, ← Bool.decide_and,
      decide_eq_decide]
    omega
  simp only [xmemSendTable, sendTableAtomic, routinesSendTable, hEloff, fEloff,
    physEloff, Bounce.copyIn, Bounce.copyOut, Bounce.access, fillHf_footer,
    h.init, h.disable, h.enable, h.atomic, hm, if_true, Bool.false_eq_true,
    if_false]
  simp only [Header.elems, List.length_cons, List.length_nil, Nat.zero_add,
    Bool.true_and, hend, Prog.pure_eq]
  rfl

/-! ## The bounce buffer of a whole table -/

theorem atomicCells_header : headerAt (atomicCells lib sur buf 0) 0 =
    (fillHf lib sur.rand (headerAt (Prog.lay sur.heap 3 buf) 0) buf.length
      (some buf)).1 := by
  unfold atomicCells
  dsimp only
  rw [Prog.map_lay, headerAt_congr fun i hi => Prog.lay_outside (.inl _)]
  · exact headerAt_lay
  · omega

theorem atomicCells_footer :
    atomicCells lib sur buf 0 (3 + buf.length) = sur.rand := by
  unfold atomicCells
  rw [Nat.zero_add]
  exact Prog.lay_inside (i := 0) (l := [sur.rand]) Nat.one_pos

theorem atomicCells_data {i : Nat} (hi : i < buf.length) :
    atomicCells lib sur buf 0 (3 + i) = buf[i] := by
  unfold atomicCells
  rw [Prog.lay_outside (.inl (by omega)), Prog.lay_outside, Prog.lay_inside hi]
  right
  exact Nat.le_add_right 3 i

def atomicTable (lib : XmemLib) (sur : Surroundings) (mem : Nat → U32)
    (buf : List U32) : Nat → U32 :=
  Prog.lay mem 0
    ((List.range' 0 (buf.length + 4)).map (atomicCells lib sur buf 0))

theorem atomicTable_inside {i : Nat} (hi : i < buf.length + 4) :
    atomicTable lib sur mem buf i = atomicCells lib sur buf 0 i := by
  have hlay := Prog.lay_map (m := mem) (a := 0) (b := 0)
    (c := atomicCells lib sur buf 0) hi
  rwa [Nat.zero_add] at hlay

theorem atomicTable_outside {i : Nat} (hi : buf.length + 4 ≤ i) :
    atomicTable lib sur mem buf i = mem i := by
  refine Prog.lay_outside (.inr ?_)
  rwa [List.length_map, List.length_range', Nat.zero_add]

theorem atomic_send_run (h : Flags lib false true true)
    (hm : sur.malloc = true) : (xmemSendTable lib sur buf 0).run mem =
      ({ err := .success }, atomicTable lib sur mem buf) := by
  simp [atomic_send h hm, atomicTable]

theorem malloc_of_send (h : Flags lib false true true)
    (hok : ((xmemSendTable lib sur buf o).run mem).1.err = .success) :
    sur.malloc = true := by
  cases hm : sur.malloc
  · simp [xmemSendTable, sendTableAtomic, h.init, h.disable, h.atomic, hm] at hok
  · rfl

/-- What an atomic receive makes of its bounce buffer, with the footer at
`f`. -/
def atomicAnswer (lib : XmemLib) (cells : Nat → U32) (n f : Nat) (inside : Bool) :
    Received :=
  let pub := (List.range' 3 n).map cells
  let err := evaluateHf lib (headerAt cells 0) (cells f) n (some pub)
  if err ≠ .success then { err := err, inside := inside }
  else { err := .success, buf := some pub, inside := inside }

theorem atomicAnswer_congr {c d : Nat → U32} {inside : Bool}
    (h : ∀ i < n + 4, c i = d i) : atomicAnswer lib c n (3 + n) inside =
      atomicAnswer lib d n (3 + n) inside := by
  have hpub : (List.range' 3 n).map c = (List.range' 3 n).map d := by
    apply List.map_congr_left
    intro i hi
    rw [List.mem_range'_1] at hi
    exact h i (by omega)
  unfold atomicAnswer
  rw [hpub, h (3 + n) (by omega), headerAt_congr fun i hi => h (0 + i) (by omega)]

theorem atomicAnswer_of_ne {cells : Nat → U32} {f : Nat} {inside : Bool}
    (h : (headerAt cells 0).val ≠ cells f) :
    (atomicAnswer lib cells n f inside).buf = none := by
  unfold atomicAnswer
  dsimp only
  rw [evaluateHf_of_ne h]
  rfl

theorem atomic_recv (h : Flags lib false true true) (hm : sur.malloc = true) :
    xmemRecvTable lib sur n o =
      (Prog.readMany o (n + 4) >>= fun table =>
        .ret (atomicAnswer lib (Prog.lay sur.heap 0 table) n (o + 3 + n)
          (decide (table.length ≤ n + 4) && decide (o + 3 + n + 1 ≤ n + 4)))) := by
  simp only [xmemRecvTable, receiveTableAtomic, routinesRecvTable, hEloff,
    fEloff, physEloff, Bounce.copyIn, Bounce.copyOut, Bounce.access, h.init,
    h.enable, h.atomic, hm, if_true, Prog.pure_eq, atomicAnswer, apply_ite,
    Bool.true_and, Nat.zero_add, XMEM_HF_ELEMS, XMEM_H_ELEMS, XMEM_F_ELEMS]

theorem atomic_recv_run (h : Flags lib false true true)
    (hm : sur.malloc = true) : (xmemRecvTable lib sur n 0).run mem =
      (atomicAnswer lib mem n (3 + n) true, mem) := by
  have hcells : ∀ i < n + 4, Prog.lay sur.heap 0
      ((List.range' 0 (n + 4)).map mem) i = mem i := by
    intro i hi
    have hlay := Prog.lay_map (m := sur.heap) (a := 0) (b := 0) (c := mem) hi
    rwa [Nat.zero_add] at hlay
  have hfits : decide (0 + 3 + n + 1 ≤ n + 4) = true := decide_eq_true (by omega)
  rw [atomic_recv h hm, Prog.run_bind, Prog.run_readMany, Prog.run_ret,
    List.length_map, List.length_range', hfits, Nat.zero_add,
    atomicAnswer_congr hcells]
  simp

theorem atomicAnswer_sent :
    atomicAnswer lib (atomicTable lib sur mem buf) buf.length
      (3 + buf.length) true = { err := .success, buf := some buf } := by
  have hpub : (List.range' 3 buf.length).map (atomicCells lib sur buf 0) =
      buf := by
    apply List.ext_getElem
    · rw [List.length_map, List.length_range']
    · intro i hi hil
      rw [List.getElem_map, List.getElem_range', Nat.one_mul,
        atomicCells_data hil]
  have herr : evaluateHf lib (headerAt (atomicCells lib sur buf 0) 0)
      (atomicCells lib sur buf 0 (3 + buf.length)) buf.length (some buf) =
      .success := by
    rw [atomicCells_header, atomicCells_footer]
    unfold evaluateHf
    rw [if_neg (not_not.mpr fillHf_val)]
    dsimp only
    rw [if_neg]
    rintro ⟨hc, hne⟩
    rw [fillHf_checksum hc, toNat_calcAdler32] at hne
    exact hne rfl
  rw [atomicAnswer_congr fun i hi => atomicTable_inside hi]
  unfold atomicAnswer
  dsimp only
  rw [hpub, herr]
  rfl

end Runs

/-! ## Tables as a linear memory -/

/-- A receive succeeds with `buf` and stays inside. -/
structure Receives (lib : XmemLib) (p o : Nat) (buf : List U32)
    (mem : Nat → U32) (sur : Surroundings) : Prop where
  answer : ((xmemRecvTable lib sur buf.length o).run mem).1 =
    { err := .success, buf := some buf }
  touched : ∀ c ∈ (xmemRecvTable lib sur buf.length o).touched mem,
    c < privElems lib p

/-- Whatever piece was read with success and has the element `e` is read with
success again and has the same one. -/
def ReadAsBefore (lib : XmemLib) (p e : Nat) (mem mem' : Nat → U32) : Prop :=
  ∀ (sur sur' : Surroundings) (i k : Nat) (b : List U32),
    sur.malloc = true → sur'.malloc = true → i ≤ e → e < i + k → i + k ≤ p →
    ((xmemRecvTable lib sur k i).run mem).1.buf = some b →
    ∃ b', ((xmemRecvTable lib sur' k i).run mem').1.buf = some b' ∧
      b'[e - i]? = b[e - i]?

/-- A send has written its piece of the table and nothing else. -/
structure LinearSend (lib : XmemLib) (p o : Nat) (sur : Surroundings)
    (mem : Nat → U32) (buf : List U32) : Prop where
  inside : ((xmemSendTable lib sur buf o).run mem).1.inside = true
  touched : ∀ c ∈ (xmemSendTable lib sur buf o).touched mem, c < privElems lib p
  received : ∀ sur' : Surroundings, sur'.malloc = true →
    Receives lib p o buf ((xmemSendTable lib sur buf o).run mem).2 sur'
  others : ∀ e < p, e < o ∨ o + buf.length ≤ e →
    ReadAsBefore lib p e mem ((xmemSendTable lib sur buf o).run mem).2

def Linear (lib : XmemLib) (p o n : Nat) : Prop :=
  ∀ (sur : Surroundings) (mem : Nat → U32) (buf : List U32), buf.length = n →
    ((xmemSendTable lib sur buf o).run mem).1.err = .success →
    LinearSend lib p o sur mem buf

section

variable {lib : XmemLib} {p o n : Nat}

theorem privElems_disabled (h : Flags lib true false false) :
    privElems lib p = p := by
  unfold privElems
  rw [h.enable]
  rfl

theorem privElems_enabled {a : Bool} (h : Flags lib false true a) :
    privElems lib p = p + 4 := by
  unfold privElems
  rw [h.enable]
  rfl

theorem disabled_linear (h : Flags lib true false false) (hp : o + n ≤ p) :
    Linear lib p o n := by
  rintro sur mem buf rfl -
  have hsend : (xmemSendTable lib sur buf o).run mem =
      ({ err := .success }, Prog.lay mem o buf) := by
    simp [disabled_send h]
  refine ⟨by rw [hsend], fun c hc => ?_, fun sur' _ => ⟨?_, fun c hc => ?_⟩,
    fun e _ hout => ?_⟩
  · rw [disabled_send h, Prog.touched_bind, Prog.touched_writeMany,
      Prog.touched_ret, List.append_nil, List.mem_range'_1] at hc
    rw [privElems_disabled h]
    omega
  · rw [hsend, disabled_recv h, Prog.run_bind, Prog.run_readMany, Prog.run_ret,
      Prog.map_lay]
  · rw [disabled_recv h, Prog.touched_bind, Prog.touched_readMany,
      Prog.touched_ret, List.append_nil, List.mem_range'_1] at hc
    rw [privElems_disabled h]
    omega
  · intro sur₁ sur₂ i k b _ _ hi hk _ hb
    rw [disabled_recv h, Prog.run_bind, Prog.run_readMany, Prog.run_ret] at hb ⊢
    refine ⟨_, rfl, ?_⟩
    cases hb
    have hlt : e - i < k := by omega
    rw [hsend, List.getElem?_map, List.getElem?_map,
      List.getElem?_eq_getElem (by rwa [List.length_range']),
      List.getElem_range', Nat.one_mul, Nat.add_sub_cancel' hi]
    exact congrArg some (Prog.lay_outside hout)

theorem plain_linear (h : Flags lib false true false) : Linear lib n 0 n := by
  rintro sur mem buf rfl -
  have hval : plainTable sur mem buf 0 0 =
      plainTable sur mem buf 0 (0 + 3 + buf.length) :=
    plainTable_header.trans plainTable_footer.symm
  refine ⟨by rw [plain_send_run h], fun c hc => ?_,
    fun sur' _ => ⟨?_, fun c hc => ?_⟩, fun e he hout => by omega⟩
  · rw [privElems_enabled h]
    simp [plain_send h, plainHeader, List.mem_range'_1] at hc
    omega
  · rw [plain_send_run h, plain_recv_run h, if_pos hval]
    exact congrArg (fun b => Received.mk _ (some b) _) Prog.map_lay
  · rw [privElems_enabled h]
    rw [plain_send_run h, plain_recv_touched h, if_pos hval] at hc
    simp [List.mem_range'_1] at hc
    omega

theorem atomic_linear (h : Flags lib false true true) : Linear lib n 0 n := by
  rintro sur mem buf rfl hok
  have hm := malloc_of_send h hok
  refine ⟨by rw [atomic_send_run h hm], fun c hc => ?_,
    fun sur' hm' => ⟨?_, fun c hc => ?_⟩, fun e he hout => by omega⟩
  · rw [atomic_send h hm, Prog.touched_bind, Prog.touched_writeMany,
      Prog.touched_ret, List.append_nil, List.length_map, List.length_range',
      List.mem_range'_1] at hc
    rw [privElems_enabled h]
    omega
  · rw [atomic_send_run h hm, atomic_recv_run h hm']
    exact atomicAnswer_sent
  · rw [atomic_recv h hm', Prog.touched_bind, Prog.touched_readMany,
      Prog.touched_ret, List.append_nil, List.mem_range'_1] at hc
    rw [privElems_enabled h]
    omega

/-! ## Where pieces collide -/

def zeros (p : Nat) (i : Nat) : U32 :=
  if i = 1 then BitVec.ofNat 32 (calcAdler32 (List.replicate p 0) p) else 0

def ones : Surroundings :=
  { rand := 1, stack := ⟨0, 0, 0⟩, heap := fun _ => 0, malloc := true }

theorem zeros_of_ne {i : Nat} (hi : i ≠ 1) : zeros p i = 0 := if_neg hi

theorem map_zeros : (List.range' 3 p).map (zeros p) = List.replicate p 0 := by
  rw [List.eq_replicate_iff]
  refine ⟨by rw [List.length_map, List.length_range'], fun x hx => ?_⟩
  obtain ⟨i, hi, rfl⟩ := List.mem_map.mp hx
  rw [List.mem_range'_1] at hi
  exact zeros_of_ne (by omega)

theorem plain_zeros (h : Flags lib false true false) :
    ((xmemRecvTable lib ones p 0).run (zeros p)).1 =
      { err := .success, buf := some (List.replicate p 0) } := by
  rw [plain_recv_run h, zeros_of_ne (Nat.zero_ne_one),
    zeros_of_ne (i := 0 + 3 + p) (by omega), if_pos rfl, map_zeros]

theorem atomic_zeros (h : Flags lib false true true) :
    ((xmemRecvTable lib ones p 0).run (zeros p)).1 =
      { err := .success, buf := some (List.replicate p 0) } := by
  rw [atomic_recv_run h rfl]
  unfold atomicAnswer
  dsimp only
  rw [map_zeros]
  have herr : evaluateHf lib (headerAt (zeros p) 0) (zeros p (3 + p)) p
      (some (List.replicate p 0)) = .success := by
    unfold evaluateHf headerAt
    dsimp only
    rw [zeros_of_ne Nat.zero_ne_one, zeros_of_ne (i := 3 + p) (by omega),
      if_neg (not_not.mpr rfl), if_neg]
    rintro ⟨-, hne⟩
    exact hne toNat_calcAdler32
  rw [herr]
  rfl

theorem not_readAsBefore_of_none {e : Nat} {mem : Nat → U32} (he : e < p)
    (hzeros : ((xmemRecvTable lib ones p 0).run (zeros p)).1 =
      { err := .success, buf := some (List.replicate p 0) })
    (hnone : ((xmemRecvTable lib ones p 0).run mem).1.buf = none) :
    ¬ ReadAsBefore lib p e (zeros p) mem := by
  intro h
  obtain ⟨b', hb', -⟩ := h ones ones 0 p _ rfl rfl (Nat.zero_le e) (by omega)
    (by omega) (congrArg Received.buf hzeros)
  rw [hnone] at hb'
  cases hb'

theorem plain_not_linear (h : Flags lib false true false) (hp : o + n ≤ p)
    (hpiece : ¬ (o = 0 ∧ n = p)) : ¬ Linear lib p o n := by
  intro hlin
  obtain ⟨buf, rfl⟩ : ∃ buf : List U32, buf.length = n :=
    ⟨List.replicate n 0, List.length_replicate⟩
  have hothers := (hlin ones (zeros p) buf rfl
    (by rw [plain_send_run h])).others
  simp only [plain_send_run h] at hothers
  have hnone : ∀ mem : Nat → U32, mem 0 ≠ mem (3 + p) →
      ((xmemRecvTable lib ones p 0).run mem).1.buf = none := by
    intro mem hne
    rw [plain_recv_run h, Nat.zero_add, if_neg hne]
  by_cases ho : o = 0
  · -- the header is new and the footer of the table is not
    subst ho
    refine not_readAsBefore_of_none (e := buf.length) (by omega)
      (plain_zeros h) (hnone _ ?_) (hothers _ (by omega) (.inr (by omega)))
    rw [plainTable_header, plainTable_outside (.inr (by omega)),
      zeros_of_ne (by omega)]
    decide
  · by_cases hend : o + buf.length = p
    · -- the footer is new and the header is not
      refine not_readAsBefore_of_none (e := 0) (by omega) (plain_zeros h)
        (hnone _ ?_) (hothers _ (by omega) (.inl (by omega)))
      rw [plainTable_outside (.inl (by omega)), zeros_of_ne Nat.zero_ne_one,
        show 3 + p = o + 3 + buf.length by omega, plainTable_footer]
      decide
    · -- the footer lies where the element behind the piece was
      obtain ⟨b', hb', he⟩ := hothers (o + buf.length) (by omega)
        (.inr (Nat.le_refl _)) ones ones 0 p _ rfl rfl (Nat.zero_le _) (by omega)
        (by omega) (congrArg Received.buf (plain_zeros h))
      rw [plain_recv_run h, plainTable_outside (.inl (by omega)),
        plainTable_outside (.inr (by omega)), zeros_of_ne Nat.zero_ne_one,
        zeros_of_ne (by omega), if_pos rfl] at hb'
      cases hb'
      rw [Nat.sub_zero, List.getElem?_map, List.getElem?_range' (by omega),
        Option.map_some, show 0 + 3 + 1 * (o + buf.length) =
          o + 3 + buf.length by omega, plainTable_footer,
        List.getElem?_replicate, if_pos (by omega)] at he
      revert he
      decide

theorem atomic_not_linear (h : Flags lib false true true) (hp : o + n ≤ p)
    (hpiece : ¬ (o = 0 ∧ n = p)) : ¬ Linear lib p o n := by
  intro hlin
  obtain ⟨buf, rfl⟩ : ∃ buf : List U32, buf.length = n :=
    ⟨List.replicate n 0, List.length_replicate⟩
  have hm : ones.malloc = true := rfl
  have hsend := hlin ones (zeros p) buf rfl (by simp [atomic_send h hm])
  by_cases ho : o = 0
  · subst ho
    have hothers := hsend.others buf.length (by omega) (.inr (by omega))
    simp only [atomic_send_run h hm] at hothers
    refine not_readAsBefore_of_none (by omega) (atomic_zeros h) ?_ hothers
    have hval : (headerAt (atomicTable lib ones (zeros p) buf) 0).val = 1 := by
      rw [headerAt_congr fun i hi => atomicTable_inside (i := 0 + i) (by omega),
        atomicCells_header, fillHf_val]
      rfl
    have hfooter : atomicTable lib ones (zeros p) buf (3 + p) = 0 :=
      (atomicTable_outside (by omega)).trans (zeros_of_ne (by omega))
    rw [atomic_recv_run h rfl]
    refine atomicAnswer_of_ne ?_
    rw [hval, hfooter]
    decide
  · -- the footer is behind the bounce buffer
    have hinside := hsend.inside
    rw [atomic_send h rfl] at hinside
    simp [ho] at hinside

end

/-- A table is a linear memory for pieces of one kind without markers, and for
pieces that are the whole table with any. -/
theorem linear_iff (masks : List U32) {p o n : Nat} (hp : o + n ≤ p) :
    Linear (afterMasks masks) p o n ↔
      (afterMasks masks).markersMask = XmemMarkersDISABLE ∨ o = 0 ∧ n = p := by
  obtain ⟨hmask, h⟩ | ⟨hmask, h⟩ := (mode_afterMasks masks).flags
  · exact ⟨fun _ => .inl hmask, fun _ => disabled_linear h hp⟩
  · constructor
    · intro hlin
      by_contra hnot
      rw [not_or] at hnot
      obtain h | h := h
      · exact plain_not_linear h hp hnot.2 hlin
      · exact atomic_not_linear h hp hnot.2 hlin
    · rintro (hdisable | ⟨rfl, rfl⟩)
      · exact absurd hdisable hmask
      · obtain h | h := h
        · exact plain_linear h
        · exact atomic_linear h

/-- The first element of a table of two, with plain markers. -/
theorem linear_iff_first : ¬ Linear (afterMasks [XmemMarkersENABLE]) 2 0 1 := by
  rw [linear_iff [XmemMarkersENABLE] (by decide)]
  decide

theorem not_linear_first : ¬ ∀ (masks : List U32) (p o n : Nat), o + n ≤ p →
    Linear (afterMasks masks) p o n := by
  intro h
  have hflags : Flags (afterMasks [XmemMarkersENABLE]) false true false :=
    ⟨rfl, by decide, by decide, by decide⟩
  exact plain_not_linear hflags (by decide) (by decide)
    (h [XmemMarkersENABLE] 2 0 1 (by decide))

end Coht.Xmem
