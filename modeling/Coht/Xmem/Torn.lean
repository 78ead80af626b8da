import Coht.Xmem.MarkersLinear
import Mathlib.Tactic.IntervalCases

/-!
# Torn tables

One process sends whole tables, another one receives one, and their accesses
to the elements interleave in any way. With a checksum the receiver gets the
data of one call or an error: all it reads was sent, so its data is a mixture
of what was sent, and the checksum it has read is that of one call.

The plain markers do not go that far. The receiver looks at them before it
reads the data, and a call that begins then goes unnoticed. What it gets is
whole if no call is part-way through its data meanwhile (`Undisturbed`).
-/

namespace Coht.Xmem

open Coht.Lib

/-- The calls of the writer, of which the first has left the table as it is. -/
structure Traffic where
  sur : Nat → Surroundings
  data : Nat → List U32

/-- What a call writes. It reads nothing, so the memory does not matter. -/
def sendWrites (lib : XmemLib) (sur : Surroundings) (buf : List U32) :
    List (Nat × U32) :=
  (xmemSendTable lib sur buf 0).written fun _ => 0

def Traffic.calls (t : Traffic) (lib : XmemLib) (k : Nat) : List (Nat × U32) :=
  sendWrites lib (t.sur (k + 1)) (t.data (k + 1))

def Traffic.table (t : Traffic) (lib : XmemLib) (mem : Nat → U32) : Nat → U32 :=
  ((xmemSendTable lib (t.sur 0) (t.data 0) 0).run mem).2

/-- The writer next to a reader of `n` elements. -/
def sharing (lib : XmemLib) (t : Traffic) (mem : Nat → U32)
    (sur : Surroundings) (n : Nat) : System (Duo U32 Received) DuoEvent :=
  duo (t.calls lib) (t.table lib mem) (xmemRecvTable lib sur n 0)

/-- Each element of `b` is that of some call. -/
def Mixture (t : Traffic) (calls : Nat) (b : List U32) : Prop :=
  ∀ i, ∀ hi : i < b.length, ∃ k ≤ calls, (t.data k)[i]? = some b[i]

/-- No two mixtures of what was sent have the same checksum, if one of them
was sent. -/
def NoCollision (t : Traffic) (calls n : Nat) : Prop :=
  ∀ k ≤ calls, ∀ b : List U32, b.length = n → Mixture t calls b →
    calcAdler32 b n = calcAdler32 (t.data k) n → b = t.data k

section Checksum

variable {lib : XmemLib} {t : Traffic} {mem : Nat → U32} {sur : Surroundings}
  {n : Nat}

theorem written_send (h : Mode lib) {buf : List U32} :
    (xmemSendTable lib sur buf 0).written mem = sendWrites lib sur buf := by
  unfold sendWrites
  obtain ⟨-, h⟩ | ⟨-, h | h⟩ := h.flags
  · simp [disabled_send h]
  · simp [plain_send h]
  · cases hm : sur.malloc
    · simp [xmemSendTable, sendTableAtomic, h.init, h.disable, h.atomic, hm]
    · simp [atomic_send h hm]

theorem mem_sendWrites_atomic (h : Flags lib false true true)
    {buf : List U32} {c : Nat × U32} (hc : c ∈ sendWrites lib sur buf) :
    c.2 = atomicCells lib sur buf 0 c.1 := by
  unfold sendWrites at hc
  cases hm : sur.malloc
  · simp [xmemSendTable, sendTableAtomic, h.init, h.disable, h.atomic, hm] at hc
  · rw [atomic_send h hm, Prog.written_bind, Prog.written_writeMany,
      Prog.written_ret, List.append_nil, Prog.mem_placed] at hc
    obtain ⟨i, hi, rfl⟩ := hc
    rw [List.getElem_map, List.getElem_range', Nat.one_mul]

theorem seen_atomic (h : Flags lib false true true)
    (hm : (t.sur 0).malloc = true) (hlen : ∀ k, (t.data k).length = n)
    {calls addr : Nat} {x : U32} (haddr : addr < n + 4)
    (hs : Seen (t.calls lib) (t.table lib mem) calls addr x) :
    ∃ k ≤ calls, x = atomicCells lib (t.sur k) (t.data k) 0 addr := by
  obtain rfl | ⟨k, hk, hc⟩ := hs
  · refine ⟨0, Nat.zero_le _, ?_⟩
    have htable : t.table lib mem = atomicTable lib (t.sur 0) mem (t.data 0) :=
      congrArg Prod.snd (atomic_send_run h hm)
    rw [htable, atomicTable_inside (by rwa [hlen])]
  · exact ⟨k + 1, hk, mem_sendWrites_atomic h hc⟩

theorem evaluateHf_checksum {header : Header} {footer : U32} {b : List U32}
    (hc : lib.set XmemMarkersCHECKSUM = true)
    (h : evaluateHf lib header footer n (some b) = .success) :
    header.checksum.toNat = calcAdler32 b n := by
  unfold evaluateHf at h
  split at h
  · cases h
  · dsimp only at h
    split at h
    · cases h
    · next hne => exact not_not.mp fun hne' => hne ⟨hc, hne'⟩

theorem atomicAnswer_success {cells : Nat → U32} {f : Nat} {inside : Bool}
    (h : (atomicAnswer lib cells n f inside).err = .success) :
    evaluateHf lib (headerAt cells 0) (cells f) n
        (some ((List.range' 3 n).map cells)) = .success ∧
      (atomicAnswer lib cells n f inside).buf =
        some ((List.range' 3 n).map cells) := by
  unfold atomicAnswer at h ⊢
  dsimp only at h ⊢
  split at h
  · next hne => exact absurd h hne
  · next heq => exact ⟨not_not.mp heq, by rw [if_neg heq]⟩

theorem possible_recv (h : Flags lib false true true) {P : Nat → U32 → Prop}
    {r : Received} (hr : (xmemRecvTable lib sur n 0).Possible P r)
    (hok : r.err = .success) : ∃ cells : Nat → U32,
      (∀ i < n + 4, P i (cells i)) ∧
      evaluateHf lib (headerAt cells 0) (cells (3 + n)) n
        (some ((List.range' 3 n).map cells)) = .success ∧
      r.buf = some ((List.range' 3 n).map cells) := by
  cases hm : sur.malloc
  · simp only [xmemRecvTable, receiveTableAtomic, h.init, h.atomic, hm, if_true,
      Bool.false_eq_true, if_false] at hr
    cases hr
    cases hok
  · rw [atomic_recv h hm, Prog.possible_bind, Nat.zero_add] at hr
    obtain ⟨table, htable, rfl⟩ := hr
    obtain ⟨hlen, hcells⟩ := Prog.possible_readMany htable
    refine ⟨Prog.lay sur.heap 0 table, fun i hi => ?_,
      atomicAnswer_success hok⟩
    have hlay := Prog.lay_inside (m := sur.heap) (a := 0) (l := table)
      (i := i) (by rwa [hlen])
    have hcell := hcells i (by rwa [hlen])
    rw [Nat.zero_add] at hlay hcell
    rw [hlay]
    exact hcell

theorem checksum_whole (h : Flags lib false true true)
    (hc : lib.set XmemMarkersCHECKSUM = true)
    (hm : (t.sur 0).malloc = true) (hlen : ∀ k, (t.data k).length = n)
    {s : Duo U32 Received} {r : Received}
    (hs : (sharing lib t mem sur n).Reachable s)
    (hno : NoCollision t s.started n) (hr : s.reader = .ret r)
    (hok : r.err = .success) : ∃ k ≤ s.started, r.buf = some (t.data k) := by
  obtain ⟨cells, hcells, herr, hbuf⟩ := possible_recv h (duo_possible hs hr) hok
  have hsent : ∀ i < n + 4, ∃ k ≤ s.started,
      cells i = atomicCells lib (t.sur k) (t.data k) 0 i := fun i hi =>
    seen_atomic h hm hlen hi (hcells i hi)
  obtain ⟨k, hk, hval⟩ := hsent 1 (by omega)
  have hsum : (headerAt cells 0).checksum.toNat = calcAdler32 (t.data k) n := by
    have hheader : headerAt (atomicCells lib (t.sur k) (t.data k) 0) 0 = _ :=
      atomicCells_header
    have hfield := congrArg Header.checksum hheader
    rw [fillHf_checksum hc, hlen] at hfield
    calc (cells 1).toNat
        = (atomicCells lib (t.sur k) (t.data k) 0 1).toNat := by rw [hval]
      _ = (BitVec.ofNat 32 (calcAdler32 (t.data k) n)).toNat := by rw [← hfield]; rfl
      _ = calcAdler32 (t.data k) n := toNat_calcAdler32
  refine ⟨k, hk, ?_⟩
  rw [hbuf]
  refine congrArg some (hno k hk _ (by simp) ?_ ?_)
  · intro i hi
    rw [List.length_map, List.length_range'] at hi
    obtain ⟨j, hj, hdata⟩ := hsent (3 + i) (by omega)
    refine ⟨j, hj, ?_⟩
    rw [atomicCells_data (by rwa [hlen])] at hdata
    rw [List.getElem_map, List.getElem_range', Nat.one_mul, hdata]
    exact List.getElem?_eq_getElem _
  · rw [← evaluateHf_checksum hc herr, hsum]

end Checksum

/-! ## Plain markers -/

/-- A call is part-way through its data. -/
def Midway (n : Nat) (s : Duo U32 Received) : Bool :=
  decide (0 < s.pending.length ∧ s.pending.length < n)

/-- The reader makes the first access to the data, or is between two of them.
Four accesses are to the markers. -/
def ReadsData (n : Nat) (s : Duo U32 Received) (e : DuoEvent) : Bool :=
  decide (s.reads < 4 + n) &&
    (decide (4 < s.reads) || decide (s.reads = 4) && decide (e = .reads))

def Undisturbed (n : Nat) (s : Duo U32 Received) (e : DuoEvent) : Bool :=
  !(ReadsData n s e && Midway n s)

def plainWrites (sur : Surroundings) (buf : List U32) : List (Nat × U32) :=
  Prog.placed 0 (plainHeader sur buf.length) ++
    Prog.placed (3 + buf.length) [sur.rand] ++ Prog.placed 3 buf

/-- Receiving once the markers have been found equal and the elements `pre`
have been read. -/
def fetch (n : Nat) (pre : List U32) : Prog U32 Received :=
  Prog.readMany (3 + pre.length) (n - pre.length) >>= fun rest =>
    .ret { err := .success, buf := some (pre ++ rest) }

def InMarkers (n : Nat) : Nat → Prog U32 Received → Prop
  | 0, q => q = fetch n [] ∨ q = .ret { err := .incoherentMarkers }
  | left + 1, q => ∃ addr k, q = .read addr k ∧ ∀ x, InMarkers n left (k x)

section Plain

variable {lib : XmemLib} {t : Traffic} {mem : Nat → U32} {sur : Surroundings}
  {n : Nat} {s s' : Duo U32 Received} {e : DuoEvent}

theorem sendWrites_plain (h : Flags lib false true false) {buf : List U32} :
    sendWrites lib sur buf = plainWrites sur buf := by
  unfold sendWrites plainWrites
  rw [plain_send h]
  simp

theorem inMarkers_recv (h : Flags lib false true false) :
    InMarkers n 4 (xmemRecvTable lib sur n 0) := by
  rw [plain_recv h]
  refine ⟨_, _, rfl, fun val => ⟨_, _, rfl, fun _ => ⟨_, _, rfl, fun _ =>
    ⟨_, _, rfl, fun footer => ?_⟩⟩⟩⟩
  by_cases heq : val = footer
  · exact .inl (if_pos heq)
  · exact .inr (if_neg heq)

def Holds (t : Traffic) (n k : Nat) (mem : Nat → U32) : Prop :=
  ∀ i < n, (t.data k)[i]? = some (mem (3 + i))

/-- Where the writer is: the elements that the current call has written are its
own, the others are those of the call before. -/
structure WriterAt (t : Traffic) (n : Nat) (s : Duo U32 Received) : Prop where
  pending : s.pending = (plainWrites (t.sur s.started) (t.data s.started)).drop
    (n + 4 - s.pending.length)
  own : ∀ i < n, i + s.pending.length < n →
    (t.data s.started)[i]? = some (s.mem (3 + i))
  before : ∀ i < n, n ≤ i + s.pending.length →
    (t.data (s.started - 1))[i]? = some (s.mem (3 + i))

theorem plainWrites_length {buf : List U32} :
    (plainWrites sur buf).length = buf.length + 4 := by
  simp [plainWrites, plainHeader]
  omega

theorem plainWrites_getElem {buf : List U32} {q : Nat}
    (hq : q < (plainWrites sur buf).length) :
    (q < 4 ∧ ∀ i < buf.length, 3 + i ≠ (plainWrites sur buf)[q].1) ∨
      ∃ j, ∃ hj : j < buf.length, q = 4 + j ∧
        (plainWrites sur buf)[q] = (3 + j, buf[j]) := by
  have hlen : (plainWrites sur buf).length = buf.length + 4 :=
    plainWrites_length
  match q with
  | 0 => exact .inl ⟨by decide, fun i _ => show 3 + i ≠ 0 by omega⟩
  | 1 => exact .inl ⟨by decide, fun i _ => show 3 + i ≠ 1 by omega⟩
  | 2 => exact .inl ⟨by decide, fun i _ => show 3 + i ≠ 2 by omega⟩
  | 3 => exact .inl ⟨by decide, fun i _ => show 3 + i ≠ 3 + buf.length by omega⟩
  | j + 4 =>
    have hj : j < buf.length := by omega
    refine .inr ⟨j, hj, Nat.add_comm j 4, ?_⟩
    exact Prog.getElem_placed (a := 3) (l := buf) (by rwa [Prog.length_placed])

theorem fetch_read {pre : List U32} (h : pre.length < n) :
    fetch n pre = .read (3 + pre.length) fun x => fetch n (pre ++ [x]) := by
  obtain ⟨m, hm⟩ : ∃ m, n - pre.length = m + 1 := ⟨n - pre.length - 1, by omega⟩
  unfold fetch
  rw [hm, Prog.readMany, Prog.bind_read]
  refine congrArg _ (funext fun x => ?_)
  have hm' : n - (pre ++ [x]).length = m := by
    rw [List.length_append, List.length_singleton]
    omega
  rw [hm', Prog.bind_assoc, List.length_append, List.length_singleton]
  simp [Nat.add_assoc]

theorem fetch_ret {pre : List U32} (h : n ≤ pre.length) :
    fetch n pre = .ret { err := .success, buf := some pre } := by
  unfold fetch
  rw [Nat.sub_eq_zero_of_le h]
  simp [Prog.readMany]

theorem writerAt_init (h : Flags lib false true false)
    (hlen : ∀ k, (t.data k).length = n) :
    WriterAt t n { mem := t.table lib mem, reader := xmemRecvTable lib sur n 0 }
    where
  pending := by
    rw [List.drop_eq_nil_of_le]
    rw [plainWrites_length, hlen]
    exact Nat.le_refl _
  own i hi _ := by
    have htable : t.table lib mem = plainTable (t.sur 0) mem (t.data 0) 0 :=
      congrArg Prod.snd (plain_send_run h)
    have hlt : i < (t.data 0).length := by rwa [hlen]
    dsimp only
    rw [htable, List.getElem?_eq_getElem hlt]
    exact congrArg some (Prog.lay_inside hlt).symm
  before i hi hle := absurd hle (Nat.not_le.mpr hi)

theorem WriterAt.head (hw : WriterAt t n s) (hlen : ∀ k, (t.data k).length = n)
    {addr : Nat} {x : U32} {rest : List (Nat × U32)}
    (hp : s.pending = (addr, x) :: rest) :
    rest = (plainWrites (t.sur s.started) (t.data s.started)).drop
      (n + 4 - rest.length) ∧
    (n ≤ rest.length ∧ (∀ i < n, 3 + i ≠ addr) ∨
      ∃ j < n, j + rest.length + 1 = n ∧ addr = 3 + j ∧
        (t.data s.started)[j]? = some x) := by
  have hL : (plainWrites (t.sur s.started) (t.data s.started)).length = n + 4 := by
    rw [plainWrites_length, hlen]
  have hdrop := hw.pending
  have hlength := congrArg List.length hdrop
  rw [List.length_drop, hL, hp, List.length_cons] at hlength
  have hq : n + 4 - (rest.length + 1) <
      (plainWrites (t.sur s.started) (t.data s.started)).length := by omega
  rw [hp, List.length_cons, List.drop_eq_getElem_cons hq] at hdrop
  obtain ⟨hhead, hrest⟩ := List.cons.inj hdrop
  have hnext : n + 4 - rest.length = n + 4 - (rest.length + 1) + 1 := by omega
  rw [hnext]
  refine ⟨hrest, ?_⟩
  obtain ⟨hlt, hne⟩ | ⟨j, hj, hqj, heq⟩ := plainWrites_getElem hq
  · rw [← hhead, hlen] at hne
    exact .inl ⟨by omega, hne⟩
  · rw [heq] at hhead
    cases hhead
    rw [hlen] at hj
    exact .inr ⟨j, hj, by omega, rfl, List.getElem?_eq_getElem _⟩

theorem writerAt_step (h : Flags lib false true false)
    (hlen : ∀ k, (t.data k).length = n) (hw : WriterAt t n s)
    (hs : Duo.Step (t.calls lib) s e s') : WriterAt t n s' := by
  cases hs with
  | begins hempty =>
    have hcall : t.calls lib s.started =
        plainWrites (t.sur (s.started + 1)) (t.data (s.started + 1)) :=
      sendWrites_plain h
    refine ⟨?_, fun i hi hown => ?_, fun i hi _ => ?_⟩
    all_goals dsimp only
    · rw [hcall, plainWrites_length, hlen, Nat.sub_self, List.drop_zero]
    · dsimp only at hown
      rw [hcall, plainWrites_length, hlen] at hown
      omega
    · exact hw.own i hi (by rw [hempty]; exact hi)
  | @writes addr x rest hpending =>
    obtain ⟨hrest, hhead⟩ := hw.head hlen hpending
    have hlength : s.pending.length = rest.length + 1 := by rw [hpending]; rfl
    refine ⟨hrest, fun i hi hown => ?_, fun i hi hbefore => ?_⟩
    all_goals dsimp only at *
    · obtain ⟨hle, -⟩ | ⟨j, hj, hrem, rfl, hx⟩ := hhead
      · omega
      · by_cases hij : i = j
        · subst hij
          rw [Function.update_self]
          exact hx
        · rw [Function.update_of_ne (by omega)]
          exact hw.own i hi (by omega)
    · have hne : 3 + i ≠ addr := by
        obtain ⟨-, hne⟩ | ⟨j, hj, hrem, rfl, -⟩ := hhead
        · exact hne i hi
        · omega
      rw [Function.update_of_ne hne]
      exact hw.before i hi (by omega)
  | reads hreader => exact ⟨hw.pending, hw.own, hw.before⟩

theorem WriterAt.holds (hw : WriterAt t n s) (h : Midway n s = false) :
    ∃ k ≤ s.started, Holds t n k s.mem := by
  have hmid : ¬ (0 < s.pending.length ∧ s.pending.length < n) :=
    of_decide_eq_false h
  by_cases hzero : s.pending.length = 0
  · exact ⟨s.started, Nat.le_refl _, fun i hi => hw.own i hi (by omega)⟩
  · exact ⟨s.started - 1, Nat.sub_le _ _, fun i hi => hw.before i hi (by omega)⟩

/-- Where the reader is: among the markers, or it has read `pre`, which is from
the call `k`, and so is the data as long as there is more to read. -/
def ReaderAt (t : Traffic) (n : Nat) (s : Duo U32 Received) : Prop :=
  s.reads ≤ 4 ∧ InMarkers n (4 - s.reads) s.reader ∨
  ∃ pre : List U32, 0 < pre.length ∧ s.reads = 4 + pre.length ∧
    s.reader = fetch n pre ∧ ∃ k ≤ s.started, pre = (t.data k).take pre.length ∧
      (pre.length < n → Midway n s = false → Holds t n k s.mem)

theorem readerAt_fetch {pre : List U32} {k : Nat} (hk : k ≤ s.started)
    (hpre : pre = (t.data k).take pre.length) (hlt : pre.length < n)
    (hholds : Holds t n k s.mem) (hreads : s.reads = 4 + pre.length)
    (hreader : s.reader = fetch n pre) {addr : Nat} {q : U32 → Prog U32 Received}
    (hq : s.reader = .read addr q) :
    ReaderAt t n { s with reader := q (s.mem addr), reads := s.reads + 1 } := by
  rw [hq, fetch_read hlt] at hreader
  cases hreader
  refine .inr ⟨pre ++ [s.mem (3 + pre.length)], ?_, ?_, rfl, k, hk, ?_,
    fun _ _ => hholds⟩
  · rw [List.length_append]
    exact Nat.succ_pos _
  · rw [List.length_append, List.length_singleton, ← Nat.add_assoc, hreads]
  · rw [List.length_append, List.length_singleton, List.take_add_one,
      hholds _ hlt, ← hpre]
    rfl

theorem Undisturbed.not_midway (hok : Undisturbed n s e = true)
    (h : ReadsData n s e = true) : Midway n s = false := by
  unfold Undisturbed at hok
  rw [h, Bool.true_and, Bool.not_eq_true'] at hok
  exact hok

theorem readsData_of_lt (h : s.reads < 4 + n)
    (hr : 4 < s.reads ∨ s.reads = 4 ∧ e = .reads) : ReadsData n s e = true := by
  unfold ReadsData
  rw [decide_eq_true h, Bool.true_and, ← Bool.decide_and, ← Bool.decide_or]
  exact decide_eq_true hr

theorem readerAt_step (hlen : ∀ k, (t.data k).length = n) (hw : WriterAt t n s)
    (hr : ReaderAt t n s) (hok : Undisturbed n s e = true)
    (hs : Duo.Step (t.calls lib) s e s') : ReaderAt t n s' := by
  obtain ⟨hreads, hin⟩ | ⟨pre, hpos, hreads, hreader, k, hk, hpre, hholds⟩ := hr
  · cases hs with
    | begins _ => exact .inl ⟨hreads, hin⟩
    | writes _ => exact .inl ⟨hreads, hin⟩
    | @reads addr q hq =>
      rw [hq] at hin
      rcases Nat.lt_or_eq_of_le hreads with hlt | heq
      · refine .inl ⟨hlt, ?_⟩
        obtain ⟨left, hleft⟩ : ∃ left, 4 - s.reads = left + 1 :=
          ⟨3 - s.reads, by omega⟩
        rw [hleft] at hin
        obtain ⟨addr', q', hqq, hall⟩ := hin
        cases hqq
        dsimp only
        rw [show 4 - (s.reads + 1) = left by omega]
        exact hall _
      · rw [heq] at hin
        obtain hfetch | hfail := hin
        · have hn : 0 < n := by
            by_contra hzero
            rw [fetch_ret (by omega)] at hfetch
            cases hfetch
          have hmid : Midway n s = false := Undisturbed.not_midway hok
            (readsData_of_lt (by omega) (.inr ⟨heq, rfl⟩))
          obtain ⟨k, hk, hholds⟩ := hw.holds hmid
          exact @readerAt_fetch t n s [] k hk (List.take_zero).symm hn
            hholds heq (hq.trans hfetch) addr q hq
        · cases hfail
  · have hmid : pre.length < n → Midway n s = false := fun hlt =>
      Undisturbed.not_midway hok (readsData_of_lt (by omega) (.inl (by omega)))
    cases hs with
    | begins hempty =>
      exact .inr ⟨pre, hpos, hreads, hreader, k, Nat.le_succ_of_le hk, hpre,
        fun hlt _ => hholds hlt (hmid hlt)⟩
    | @writes addr x rest hpending =>
      refine .inr ⟨pre, hpos, hreads, hreader, k, hk, hpre,
        fun hlt hmid' => ?_⟩
      have hold : ¬ (0 < s.pending.length ∧ s.pending.length < n) :=
        of_decide_eq_false (hmid hlt)
      have hnew : ¬ (0 < rest.length ∧ rest.length < n) :=
        of_decide_eq_false hmid'
      rw [hpending, List.length_cons] at hold
      obtain ⟨-, ⟨-, hne⟩ | ⟨j, hj, hrem, -⟩⟩ := hw.head hlen hpending
      · intro i hi
        dsimp only
        rw [Function.update_of_ne (hne i hi)]
        exact hholds hlt (hmid hlt) i hi
      · -- the first element of the data would leave the call midway
        omega
    | @reads addr q hq =>
      have hlt : pre.length < n := by
        by_contra hle
        rw [fetch_ret (by omega), hq] at hreader
        cases hreader
      exact readerAt_fetch hk hpre hlt (hholds hlt (hmid hlt)) hreads hreader hq

theorem plain_inv (h : Flags lib false true false)
    (hlen : ∀ k, (t.data k).length = n) :
    ((sharing lib t mem sur n).guarded
      fun s e => Undisturbed n s e = true).Invariant
      fun s => WriterAt t n s ∧ ReaderAt t n s where
  init := by
    rintro s rfl
    exact ⟨writerAt_init h hlen, .inl ⟨Nat.zero_le _, inMarkers_recv h⟩⟩
  step hi hs := ⟨writerAt_step h hlen hi.1 hs.2,
    readerAt_step hlen hi.1 hi.2 hs.1 hs.2⟩

theorem plain_whole (h : Flags lib false true false)
    (hlen : ∀ k, (t.data k).length = n) {r : Received}
    (hs : ((sharing lib t mem sur n).guarded
      fun s e => Undisturbed n s e = true).Reachable s)
    (hr : s.reader = .ret r) (hok : r.err = .success) :
    ∃ k ≤ s.started, r.buf = some (t.data k) := by
  obtain ⟨-, ⟨hreads, hin⟩ | ⟨pre, hpos, hreads, hreader, k, hk, hpre, -⟩⟩ :=
    (plain_inv h hlen).reachable hs
  · rw [hr] at hin
    match hleft : 4 - s.reads with
    | left + 1 =>
      rw [hleft] at hin
      obtain ⟨_, _, hread, -⟩ := hin
      cases hread
    | 0 =>
      rw [hleft] at hin
      obtain hfetch | hfail := hin
      · have hn : n = 0 := by
          by_contra hne
          rw [fetch_read (Nat.pos_of_ne_zero hne)] at hfetch
          cases hfetch
        subst hn
        rw [fetch_ret (Nat.le_refl 0)] at hfetch
        cases hfetch
        exact ⟨0, Nat.zero_le _,
          congrArg some (List.eq_nil_of_length_eq_zero (hlen 0)).symm⟩
      · cases hfail
        cases hok
  · rw [hr] at hreader
    have hle : n ≤ pre.length := by
      by_contra hlt
      rw [fetch_read (by omega)] at hreader
      cases hreader
    rw [fetch_ret hle] at hreader
    cases hreader
    refine ⟨k, hk, congrArg some ?_⟩
    rw [hpre, List.take_of_length_le (by rwa [hlen])]

end Plain

/-! ## Both modes -/

def plainLib : XmemLib := { markersMask := XmemMarkersENABLE }

def checksumLib : XmemLib :=
  { markersMask := XmemMarkersENABLE ||| XmemMarkersATOMIC |||
      XmemMarkersCHECKSUM }

theorem plainLib_flags : Flags plainLib false true false :=
  ⟨rfl, by decide, by decide, by decide⟩

theorem checksumLib_flags : Flags checksumLib false true true :=
  ⟨rfl, by decide, by decide, by decide⟩

theorem torn_detected (t : Traffic) (n : Nat) (mem : Nat → U32)
    (sur : Surroundings) (hlen : ∀ k, (t.data k).length = n)
    (hm : (t.sur 0).malloc = true) :
    (∀ (s : Duo U32 Received) (r : Received),
      (sharing checksumLib t mem sur n).Reachable s →
      NoCollision t s.started n → s.reader = .ret r → r.err = .success →
      ∃ k ≤ s.started, r.buf = some (t.data k)) ∧
    (∀ (s : Duo U32 Received) (r : Received),
      ((sharing plainLib t mem sur n).guarded
        fun s e => Undisturbed n s e = true).Reachable s →
      s.reader = .ret r → r.err = .success →
      ∃ k ≤ s.started, r.buf = some (t.data k)) :=
  ⟨fun _ _ hs hno hr hok =>
      checksum_whole checksumLib_flags (by decide) hm hlen hs hno hr hok,
    fun _ _ hs hr hok => plain_whole plainLib_flags hlen hs hr hok⟩

/-- Zeros are in the table, and ones are sent next. -/
def zerosThenOnes : Traffic where
  sur k := { ones with rand := BitVec.ofNat 32 k }
  data k := if k = 0 then [0, 0] else [1, 1]

theorem zerosThenOnes_length (k : Nat) : (zerosThenOnes.data k).length = 2 := by
  cases k <;> rfl

theorem zerosThenOnes_data (k : Nat) :
    zerosThenOnes.data k = [0, 0] ∨ zerosThenOnes.data k = [1, 1] := by
  cases k
  · exact .inl rfl
  · exact .inr rfl

theorem adler_zeros_ones :
    [[(0 : U32), 0], [0, 1], [1, 0], [1, 1]].map (calcAdler32 · 2) =
      [524289, 786434, 1048578, 1310723] := by
  decide +kernel

theorem zerosThenOnes_elem {j i : Nat} {z : U32}
    (h : (zerosThenOnes.data j)[i]? = some z) : z = 0 ∨ z = 1 := by
  have hmem := List.mem_of_getElem? h
  obtain hd | hd := zerosThenOnes_data j <;> rw [hd] at hmem
  · exact .inl (by simpa using hmem)
  · exact .inr (by simpa using hmem)

theorem zerosThenOnes_noCollision {calls : Nat} :
    NoCollision zerosThenOnes calls 2 := by
  intro k _ b hlen hmix hsum
  obtain ⟨x, y, rfl⟩ := List.length_eq_two.mp hlen
  obtain ⟨i, -, hx⟩ := hmix 0 (Nat.succ_pos 1)
  obtain ⟨j, -, hy⟩ := hmix 1 (Nat.lt_succ_self 1)
  have hsums := adler_zeros_ones
  simp only [List.map_cons, List.map_nil, List.cons.injEq, and_true] at hsums
  obtain ⟨h00, h01, h10, h11⟩ := hsums
  obtain hd | hd := zerosThenOnes_data k <;> rw [hd] at hsum ⊢ <;>
    obtain rfl | rfl := zerosThenOnes_elem hx <;>
    obtain rfl | rfl := zerosThenOnes_elem hy <;>
    first | rfl | (simp only [h00, h01, h10, h11] at hsum; cases hsum)

def tearing : List DuoEvent :=
  List.replicate 5 .reads ++ .begins :: List.replicate 6 .writes ++ [.reads]

def waiting : List DuoEvent :=
  .begins :: List.replicate 6 .writes ++ List.replicate 6 .reads

theorem tearing_outcome :
    Duo.outcome (zerosThenOnes.calls plainLib)
      (zerosThenOnes.table plainLib fun _ => 0) (xmemRecvTable plainLib ones 2 0)
      (fun _ _ => true) tearing =
      some (1, { err := .success, buf := some [0, 1] }) := by
  decide +kernel

theorem waiting_checksum :
    Duo.outcome (zerosThenOnes.calls checksumLib)
      (zerosThenOnes.table checksumLib fun _ => 0)
      (xmemRecvTable checksumLib ones 2 0) (fun _ _ => true) waiting =
      some (1, { err := .success, buf := some [1, 1] }) := by
  decide +kernel

theorem waiting_plain :
    Duo.outcome (zerosThenOnes.calls plainLib)
      (zerosThenOnes.table plainLib fun _ => 0) (xmemRecvTable plainLib ones 2 0)
      (Undisturbed 2) waiting =
      some (1, { err := .success, buf := some [1, 1] }) := by
  decide +kernel

theorem torn_detected_two :
    (∃ k ≤ 1, some [(1 : U32), 1] = some (zerosThenOnes.data k)) ∧
    (∃ k ≤ 1, some [(1 : U32), 1] = some (zerosThenOnes.data k)) := by
  obtain ⟨hsum, hplain⟩ := torn_detected zerosThenOnes 2 (fun _ => 0) ones
    zerosThenOnes_length rfl
  obtain ⟨s, hs, hstarted, hr⟩ := Duo.outcome_reachable waiting_checksum
  obtain ⟨s', hs', hstarted', hr'⟩ := Duo.outcome_reachable waiting_plain
  constructor
  · exact hstarted ▸ hsum s _ (Duo.reachable_of_guarded hs)
      zerosThenOnes_noCollision hr rfl
  · exact hstarted' ▸ hplain s' _ hs' hr' rfl

/-- What the plain markers promise would need: as `torn_detected`, for every
run, and with markers that tell the calls apart. -/
theorem plain_torn : ¬ ∀ (t : Traffic) (n : Nat) (mem : Nat → U32)
    (sur : Surroundings), (∀ k, (t.data k).length = n) →
    (t.sur 0).malloc = true → ∀ (s : Duo U32 Received) (r : Received),
    (sharing plainLib t mem sur n).Reachable s →
    (∀ j ≤ s.started, ∀ k ≤ s.started, (t.sur j).rand = (t.sur k).rand → j = k) →
    NoCollision t s.started n → s.reader = .ret r → r.err = .success →
    ∃ k ≤ s.started, r.buf = some (t.data k) := by
  intro h
  obtain ⟨s, hs, hstarted, hr⟩ := Duo.outcome_reachable tearing_outcome
  have hrand : ∀ j ≤ s.started, ∀ k ≤ s.started,
      (zerosThenOnes.sur j).rand = (zerosThenOnes.sur k).rand → j = k := by
    rw [hstarted]
    intro j hj k hk
    interval_cases j <;> interval_cases k <;> decide
  obtain ⟨k, -, hk⟩ := h zerosThenOnes 2 (fun _ => 0) ones zerosThenOnes_length
    rfl s _ (Duo.reachable_of_guarded hs) hrand zerosThenOnes_noCollision hr rfl
  obtain hd | hd := zerosThenOnes_data k <;> rw [hd] at hk <;> cases hk

end Coht.Xmem
