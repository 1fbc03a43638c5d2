import IntervalStack.Proofs.Integrity
import IntervalStack.Proofs.Utf8

/-! The data segment. A listing is loaded exactly if its names are in order and there is room for its
data and the heap; then the memory holds the bytes of its data one after the other from address zero
on, and zeros behind them. -/

namespace IntervalStack

def Instr.laidOut : Instr → List UInt8
  | .dataZ n => List.replicate n.toNat 0
  | i => i.bytes

theorem Instr.length_laidOut (i : Instr) : i.laidOut.length = i.dataSize := by
  cases i with
  | dataZ n => exact List.length_replicate
  | _ => rfl

namespace Code

instance (c : Code) : Decidable c.Loadable :=
  decidable_of_iff (c.labels.Nodup ∧ c.dataLabels.Nodup ∧
      ∀ i ∈ c, ∀ t ∈ i.target?, t ∈ c.labels ∨ Image.isHostEntry t = true)
    ⟨fun h => ⟨h.1, h.2.1, h.2.2⟩, fun h => ⟨h.labels, h.dataLabels, h.targets⟩⟩

def dataBytes (c : Code) : List UInt8 := c.flatMap Instr.laidOut

theorem dataBytes_append (c c' : Code) : dataBytes (c ++ c') = dataBytes c ++ dataBytes c' :=
  List.flatMap_append

theorem length_dataBytes (c : Code) : c.dataBytes.length = c.dataSize := by
  rw [dataBytes, List.length_flatMap, dataSize]
  exact congrArg List.sum (List.map_congr_left fun i _ => i.length_laidOut)

end Code

namespace Memory

variable {m : Memory} {a n k : Nat}

theorem read_add : m.read a (n + k) = m.read a n ++ m.read (a + n) k := by
  induction n generalizing a with
  | zero => rw [Nat.zero_add, Nat.add_zero, read, List.nil_append]
  | succ n ih =>
    rw [Nat.add_right_comm, read, read, ih, Nat.add_assoc a 1 n, Nat.add_comm 1 n]
    rfl

theorem read_eq_append {xs ys : List UInt8} (h : m.read a n = xs ++ ys) :
    m.read a xs.length = xs ∧ m.read (a + xs.length) ys.length = ys := by
  have hn : n = xs.length + ys.length := by rw [← List.length_append, ← h, length_read]
  rw [hn, read_add] at h
  exact List.append_inj h (length_read ..)

theorem read_zeros (h : ∀ i < n, m.get (a + i) = 0) : m.read a n = List.replicate n 0 := by
  have hsame : m.read a n = (zeros m.size).read a n :=
    read_congr fun i hi => (h i hi).trans (ByteTree.get_zeros _ _).symm
  rw [hsame]
  clear hsame h
  induction n generalizing a with
  | zero => rfl
  | succ n ih => rw [read, ih, List.replicate_succ, get, zeros, ByteTree.get_zeros]

theorem readText_of_read {bs : List UInt8} (h : m.read a (bs.length + 1) = bs ++ [0]) (hbs : 0 ∉ bs)
    (hn : bs.length < n) : m.readText a n = some bs := by
  induction bs generalizing a n with
  | nil =>
    cases n with
    | zero => cases hn
    | succ n =>
      have hzero : m.get a = 0 := List.head_eq_of_cons_eq h
      rw [readText, hzero, if_pos rfl]
  | cons b bs ih =>
    cases n with
    | zero => cases hn
    | succ n =>
      obtain ⟨hfirst, hrest⟩ := List.cons.inj h
      obtain ⟨hb, hbs⟩ := not_or.1 (mt List.mem_cons.2 hbs)
      rw [readText, hfirst, if_neg (Ne.symm hb), ih hrest hbs (Nat.lt_of_succ_lt_succ hn)]
      rfl

end Memory

namespace Loading

variable {l l' : Loading} {c : Code} {i : Instr} {bs : List UInt8}

/-- The bytes stand in memory from address zero up to the cursor, and nothing but zeros behind it. -/
structure Holds (l : Loading) (bs : List UInt8) : Prop where
  fits : l.Fits
  cursor : l.cursor = bs.length
  bytes : l.memory.read 0 bs.length = bs
  zeros : ∀ b, bs.length ≤ b → b < UInt32.size → l.memory.get b = 0

theorem holds_start (settings : MachineSettings) :
    (start settings.memorySize.toNat).Holds [] where
  fits := Machine.fits_start settings
  cursor := rfl
  bytes := rfl
  zeros b _ _ := ByteTree.get_zeros _ b

theorem Holds.read_data (h : l.Holds bs) (hroom : l.cursor + i.dataSize ≤ UInt32.size) :
    (l.memory.write l.cursor i.bytes).read bs.length i.dataSize = i.laidOut := by
  have hcursor := h.cursor
  cases i with
  | dataZ n =>
    show l.memory.read bs.length n.toNat = List.replicate n.toNat 0
    have hroom : l.cursor + n.toNat ≤ UInt32.size := hroom
    exact Memory.read_zeros fun i hi => h.zeros _ (by omega) (by omega)
  | _ =>
    rw [hcursor]
    exact Memory.read_write _ (by rwa [← hcursor])

theorem Holds.data (h : l.Holds bs) (hd : l.data i = .ok l') : l'.Holds (bs ++ i.laidOut) := by
  have hfits := h.fits.data hd
  unfold Loading.data at hd
  split at hd
  · cases hd
  · next hroom =>
    obtain rfl := Except.ok.inj hd
    have hsize := h.fits.size
    have hcursor := h.cursor
    have hlength := length_bytes_le i
    refine ⟨hfits, ?_, ?_, fun b hb hlt => ?_⟩
    · show l.cursor + i.dataSize = _
      rw [List.length_append, i.length_laidOut, h.cursor]
    · rw [List.length_append, i.length_laidOut, Memory.read_add, Nat.zero_add]
      have hkept : (l.memory.write l.cursor i.bytes).read 0 bs.length = l.memory.read 0 bs.length :=
        Memory.read_congr fun j hj =>
          Memory.get_write_of_outside _ (by omega) (by omega) (.inl (by omega))
      rw [h.read_data (by omega), hkept, h.bytes]
    · rw [List.length_append, i.length_laidOut] at hb
      rw [Memory.get_write_of_outside _ (by omega) hlt (.inr (by omega))]
      exact h.zeros b (by omega) hlt

theorem Holds.same (h : l.Holds bs) (hmemory : l'.memory = l.memory) (hcursor : l'.cursor = l.cursor)
    (hi : i.laidOut = []) : l'.Holds (bs ++ i.laidOut) := by
  obtain ⟨image, memory, cursor⟩ := l'
  obtain rfl : memory = l.memory := hmemory
  obtain rfl : cursor = l.cursor := hcursor
  rw [hi, List.append_nil]
  exact ⟨⟨h.fits.cursor, h.fits.size, h.fits.blank⟩, h.cursor, h.bytes, h.zeros⟩

theorem Holds.place (h : l.Holds bs) (hp : l.place i = .ok l') : l'.Holds (bs ++ i.laidOut) := by
  cases i with
  | label name | dLabel name =>
    simp only [Loading.place] at hp
    split at hp
    · cases hp
    · obtain rfl := Except.ok.inj hp
      exact h.same rfl rfl rfl
  | dataZ | dataI | dataF | dataC | dataS => exact h.data hp
  | _ =>
    obtain rfl := Except.ok.inj hp
    exact h.same rfl rfl rfl

theorem Holds.placeAll (h : l.Holds bs) (hp : l.placeAll c = .ok l') :
    l'.Holds (bs ++ c.dataBytes) := by
  induction c generalizing l bs with
  | nil =>
    obtain rfl := Except.ok.inj hp
    rwa [show Code.dataBytes [] = [] from rfl, List.append_nil]
  | cons i c ih =>
    simp only [Loading.placeAll, bind, Except.bind] at hp
    split at hp
    · cases hp
    · next l₁ h₁ =>
      have hrest := ih (h.place h₁) hp
      rwa [List.append_assoc] at hrest

/-! Names. Only what is new is placed, so code that was placed has no name twice. -/

theorem place_fresh (h : l.place i = .ok l') :
    (∀ name ∈ Code.labels [i], l.image.label? name = none) ∧
      ∀ name ∈ Code.dataLabels [i], l.image.dataLabel? name = none := by
  cases i with
  | label name | dLabel name =>
    simp only [Loading.place] at h
    split at h
    · cases h
    · next hnew => simpa [Code.labels, Code.dataLabels] using hnew
  | _ => exact ⟨List.forall_mem_nil _, List.forall_mem_nil _⟩

theorem nodup_append_of_fresh {own rest : List String} {find find' : String → Option Nat}
    (hkeep : ∀ name n, find name = some n → find' name = some n) (hown : own.Nodup)
    (hnew : ∀ name ∈ own, find name = none) (hput : ∀ name ∈ own, ∃ n, find' name = some n)
    (hrest : rest.Nodup ∧ ∀ name ∈ rest, find' name = none) :
    (own ++ rest).Nodup ∧ ∀ name ∈ own ++ rest, find name = none := by
  refine ⟨List.nodup_append.2 ⟨hown, hrest.1, fun name hname name' hname' heq => ?_⟩,
    fun name hname => ?_⟩
  · obtain ⟨n, hn⟩ := hput name hname
    rw [heq, hrest.2 name' hname'] at hn
    cases hn
  · rcases List.mem_append.1 hname with hname | hname
    · exact hnew name hname
    · cases hfind : find name with
      | none => rfl
      | some n =>
        have hkept := hkeep name n hfind
        rw [hrest.2 name hname] at hkept
        cases hkept

theorem placeAll_fresh (h : l.placeAll c = .ok l') :
    (c.labels.Nodup ∧ ∀ name ∈ c.labels, l.image.label? name = none) ∧
      c.dataLabels.Nodup ∧ ∀ name ∈ c.dataLabels, l.image.dataLabel? name = none := by
  induction c generalizing l with
  | nil => simp [Code.labels, Code.dataLabels]
  | cons i c ih =>
    simp only [Loading.placeAll, bind, Except.bind] at h
    split at h
    · cases h
    · next l₁ h₁ =>
      obtain ⟨hlabels, hdata⟩ := ih h
      obtain ⟨hnew, hnewData⟩ := place_fresh h₁
      have hext := place_extends h₁
      have hone : (Code.labels [i]).Nodup ∧ (Code.dataLabels [i]).Nodup := by
        cases i <;> simp [Code.labels, Code.dataLabels]
      rw [show i :: c = [i] ++ c from rfl, Code.labels_append, Code.dataLabels_append]
      exact ⟨nodup_append_of_fresh hext.label hone.1 hnew (fun _ => hext.exists_label) hlabels,
        nodup_append_of_fresh hext.dataLabel hone.2 hnewData (fun _ => hext.exists_dataLabel) hdata⟩

end Loading

namespace Machine

variable {code : Code} {settings : MachineSettings} {m : Machine}

theorem loadable_of_load (h : load code settings = .ok m) : code.Loadable := by
  obtain ⟨l, hl, hknown, -, -⟩ := load_ok h
  have hfresh := Loading.placeAll_fresh hl
  refine ⟨hfresh.1.1, hfresh.2.1, fun i hi t ht => ?_⟩
  refine (Loading.unknownTarget?_eq_none.1 hknown i hi t ht).symm.imp_left fun hsome => ?_
  refine Decidable.byContradiction fun hnone => ?_
  rw [(Loading.placeAll_extends hl).noLabel t hnone] at hsome
  cases hsome

theorem load_iff (code : Code) (settings : MachineSettings) : (∃ m, load code settings = .ok m) ↔
    code.Loadable ∧ code.dataSize ≤ settings.memorySize.toNat ∧
      heapBase code + settings.heapSize.toNat ≤ settings.memorySize.toNat := by
  have hbase : heapBase code = (code.dataSize + 7) / 8 * 8 := rfl
  have hlt : settings.memorySize.toNat < UInt32.size := settings.memorySize.toNat_lt
  constructor
  · rintro ⟨m, h⟩
    have hfits := (load_loaded h).fits
    exact ⟨loadable_of_load h, by omega, hfits⟩
  · rintro ⟨hloadable, hdata, hheap⟩
    rcases load_of_loadable hloadable settings with ⟨hload, -⟩ | ⟨-, hlarge⟩ | ⟨-, -, hover⟩
    · exact hload
    · omega
    · omega

theorem load_memory (h : load code settings = .ok m) :
    m.memory.read 0 m.memory.size =
      code.dataBytes ++ List.replicate (m.memory.size - code.dataSize) 0 := by
  obtain ⟨l, hl, -, -, rfl⟩ := load_ok h
  have hholds := (Loading.holds_start settings).placeAll hl
  rw [List.nil_append] at hholds
  have hlength := code.length_dataBytes
  have hcursor := hholds.cursor
  have hfits := hholds.fits.cursor
  have hsize := hholds.fits.size
  have hall : l.memory.size = code.dataBytes.length + (l.memory.size - code.dataSize) := by omega
  show l.memory.read 0 l.memory.size = _ ++ List.replicate (l.memory.size - _) 0
  rw [hall, Memory.read_add, hholds.bytes, ← hall, Nat.zero_add]
  rw [Memory.read_zeros fun i hi => hholds.zeros _ (Nat.le_add_right _ _) (by omega)]

theorem load_text {pre post : Code} {text : String} (h : load code settings = .ok m)
    (hc : code = pre ++ .dataS text :: post) :
    pre.dataSize + (Instr.dataS text).dataSize ≤ m.memory.size ∧
      m.memory.read pre.dataSize (Instr.dataS text).dataSize = (Instr.dataS text).bytes := by
  have hsplit : code = pre ++ ([.dataS text] ++ post) := hc
  constructor
  · have hfits := (load_loaded h).fits
    have hsize := (load_loaded h).size
    have hall : code.dataSize
        = pre.dataSize + ((Instr.dataS text).dataSize + post.dataSize) := by
      rw [hc, Code.dataSize_append, Code.dataSize_cons]
    simp only [heapBase] at hfits
    omega
  · have hmemory := load_memory h
    rw [hsplit, Code.dataBytes_append, Code.dataBytes_append, List.append_assoc,
      List.append_assoc] at hmemory
    obtain ⟨-, hbehind⟩ := Memory.read_eq_append hmemory
    obtain ⟨hread, -⟩ := Memory.read_eq_append hbehind
    rw [Nat.zero_add, Code.length_dataBytes, Code.length_dataBytes, Code.dataSize_cons,
      Code.dataSize_nil, Nat.add_zero] at hread
    rw [hread]
    exact List.append_nil _

theorem readText_of_read {a : Nat} {text : String}
    (hin : a + (Instr.dataS text).dataSize ≤ m.memory.size)
    (hread : m.memory.read a (Instr.dataS text).dataSize = (Instr.dataS text).bytes)
    (hsize : m.memory.size ≤ UInt32.size) (hplain : '\x00' ∉ text.toList) :
    m.readText (UInt32.ofNat a) = .ok text := by
  have hlength : (Instr.dataS text).dataSize = (Text.encode text).length + 1 := List.length_append
  rw [hlength] at hin hread
  have hself : (UInt32.ofNat a).toNat = a := UInt32.toNat_ofNat_of_lt' (by omega)
  have htext := Memory.readText_of_read hread (Text.zero_notMem_encode hplain)
    (n := m.memory.size - a) (by omega)
  simp only [Machine.readText, hself, htext, Text.decode_encode]
  rw [if_neg (by omega)]

theorem load_readText (pre : Code) {post : Code} {text : String} (h : load code settings = .ok m)
    (hc : code = pre ++ .dataS text :: post) (hplain : '\x00' ∉ text.toList) :
    m.readText (UInt32.ofNat pre.dataSize) = .ok text := by
  obtain ⟨hin, hread⟩ := load_text h hc
  have hsize : m.memory.size ≤ UInt32.size := by
    rw [(load_loaded h).size]
    exact Nat.le_of_lt settings.memorySize.toNat_lt
  exact readText_of_read hin hread hsize hplain

theorem heapBase_bounds (code : Code) :
    8 ∣ heapBase code ∧ code.dataSize ≤ heapBase code ∧ heapBase code < code.dataSize + 8 := by
  rw [heapBase]
  omega

/-- A listing is loaded exactly if its names are in order and the memory has room for its data and,
from the next multiple of eight on, for the heap. If the rounding cannot leave the words, it is
otherwise refused and never fails by an overflow. Once it is loaded, the memory is the data of the
listing with zeros behind them, labels and data labels are where the listing has them, and each text
reads as it was written. -/
theorem load_lays_out (code : Code) (settings : MachineSettings) :
    ((∃ m, load code settings = .ok m) ↔
      code.Loadable ∧ code.dataSize ≤ settings.memorySize.toNat ∧
        heapBase code + settings.heapSize.toNat ≤ settings.memorySize.toNat) ∧
    (settings.memorySize.toNat ≤ 2 ^ 32 - 8 →
      ∀ e, load code settings = .error e → e.isOverflow = false) ∧
    ∀ m, load code settings = .ok m →
      m.memory.size = settings.memorySize.toNat ∧
      m.memory.read 0 m.memory.size =
        code.dataBytes ++ List.replicate (m.memory.size - code.dataSize) 0 ∧
      (∀ pre name post, code = pre ++ .dLabel name :: post →
        m.image.dataLabel? name = some (Code.dataSize pre)) ∧
      m.image.code.toList = code.executable ∧
      (∀ pre name post, code = pre ++ .label name :: post →
        m.image.label? name = some (Code.executable pre).length) ∧
      m.heap = .empty (heapBase code) (heapBase code + settings.heapSize.toNat) ∧
      (8 ∣ heapBase code ∧ code.dataSize ≤ heapBase code ∧ heapBase code < code.dataSize + 8) ∧
      ∀ pre text post, code = pre ++ .dataS text :: post → '\x00' ∉ text.toList →
        m.readText (UInt32.ofNat (Code.dataSize pre)) = .ok text := by
  refine ⟨load_iff code settings, fun hsize e h => load_error hsize h, fun m h => ?_⟩
  have hloaded := load_loaded h
  exact ⟨hloaded.size, load_memory h, hloaded.dataLabel, hloaded.code, hloaded.label, hloaded.heap,
    heapBase_bounds code, fun pre _ _ hc hplain => load_readText pre h hc hplain⟩

/-- Data of every width between labels and instructions. -/
def mixedListing : Code :=
  [.jump "main", .dLabel "price", .dataS "é€", .dLabel "gap", .dataZ 3, .dataI (-2),
    .label "main", .dLabel "end", .dataC 255, .call Environment.allocateEntry,
    .dataF ⟨0x3FF8000000000000⟩, .halt]

theorem load_lays_out_mixed :
    ∃ m, load mixedListing ⟨64, 16, 0⟩ = .ok m ∧
      m.memory.read 0 64 =
        [0xC3, 0xA9, 0xE2, 0x82, 0xAC, 0, 0, 0, 0, 0xFE, 0xFF, 0xFF, 0xFF, 0xFF,
          0, 0, 0, 0, 0, 0, 0xF8, 0x3F] ++ List.replicate 42 0 ∧
      m.image.label? "main" = some 1 ∧ m.image.dataLabel? "end" = some 13 ∧
      m.heap = .empty 24 40 ∧ m.readText 0 = .ok "é€" := by
  obtain ⟨hiff, -, hloaded⟩ := load_lays_out mixedListing ⟨64, 16, 0⟩
  obtain ⟨m, h⟩ := hiff.2 (by decide +kernel)
  obtain ⟨hsize, hmemory, hdata, -, hlabel, hheap, -, htext⟩ := hloaded m h
  have hbytes : mixedListing.dataBytes =
      [0xC3, 0xA9, 0xE2, 0x82, 0xAC, 0, 0, 0, 0, 0xFE, 0xFF, 0xFF, 0xFF, 0xFF,
        0, 0, 0, 0, 0, 0, 0xF8, 0x3F] := by decide +kernel
  have hlength : mixedListing.dataSize = 22 := by decide +kernel
  have hbase : heapBase mixedListing = 24 := by rw [heapBase, hlength]
  rw [hsize, hbytes, hlength] at hmemory
  rw [hbase] at hheap
  exact ⟨m, h, hmemory, hlabel (mixedListing.take 6) _ _ rfl, hdata (mixedListing.take 7) _ _ rfl,
    hheap, htext (mixedListing.take 2) _ _ rfl (by decide)⟩

end Machine
end IntervalStack
