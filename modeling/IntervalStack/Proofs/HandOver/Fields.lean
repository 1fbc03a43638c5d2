import IntervalStack.Proofs.Json.Reading
import IntervalStack.Tree.Decode
import IntervalStack.Tree.Encode

/-! JSON values that carry something: they can be written, and a decoder that may open as many
levels as they have finds it. Scalars, lists and structures by their fields. -/

namespace IntervalStack

namespace Json

mutual

/-- How many arrays and objects stand inside one another. -/
def depth : Json → Nat
  | .arr items => itemsDepth items + 1
  | .obj members => membersDepth members + 1
  | _ => 0

def itemsDepth : List Json → Nat
  | [] => 0
  | v :: vs => max v.depth (itemsDepth vs)

def membersDepth : List (Option String × Json) → Nat
  | [] => 0
  | (_, v) :: ms => max v.depth (membersDepth ms)

end

theorem itemsDepth_le_iff {vs : List Json} {d : Nat} :
    itemsDepth vs ≤ d ↔ ∀ v ∈ vs, v.depth ≤ d := by
  induction vs with
  | nil => simp [itemsDepth]
  | cons v vs ih => rw [itemsDepth, Nat.max_le, ih, List.forall_mem_cons]

theorem membersDepth_le_iff {ms : List (String × Json)} {d : Nat} :
    membersDepth (keyed ms) ≤ d ↔ ∀ m ∈ ms, m.2.depth ≤ d := by
  induction ms with
  | nil => simp [keyed, membersDepth]
  | cons m ms ih =>
    rw [List.forall_mem_cons, ← ih, ← Nat.max_le]
    exact Iff.rfl

end Json

open Json (record ofString ofInt Written)

structure Carries {α : Type} (decode : Nat → Json → Option α) (j : Json) (a : α) : Prop where
  written : j.Written
  decodes : ∀ {depth}, j.depth ≤ depth → decode depth j = some a

namespace Decode

theorem mapM_map_eq {α : Type} {f : Json → Option α} {encode : α → Json} {as : List α}
    (h : ∀ a ∈ as, f (encode a) = some a) : (as.map encode).mapM f = some as := by
  induction as with
  | nil => rfl
  | cons a as ih =>
    rw [List.map_cons, List.mapM_cons, h a List.mem_cons_self,
      ih fun b hb => h b (List.mem_cons_of_mem a hb)]
    rfl

end Decode

namespace Carries

variable {α β : Type} {decode : Nat → Json → Option α} {j : Json} {a : α}

theorem map {decode' : Nat → Json → Option β} {b : β} (h : Carries decode j a)
    (heq : ∀ depth, decode depth j = some a → decode' depth j = some b) : Carries decode' j b :=
  ⟨h.written, fun hdepth => heq _ (h.decodes hdepth)⟩

theorem list {encode : α → Json} {as : List α} (h : ∀ a ∈ as, Carries decode (encode a) a) :
    Carries (Decode.list? decode) (.arr (as.map encode)) as := by
  refine ⟨.arr fun v hv => ?_, fun {depth} hdepth => ?_⟩
  · obtain ⟨a, ha, rfl⟩ := List.mem_map.1 hv
    exact (h a ha).written
  · rw [Json.depth] at hdepth
    obtain ⟨depth, rfl⟩ : ∃ d, depth = d + 1 := ⟨depth - 1, by omega⟩
    have hitems := Json.itemsDepth_le_iff.1 (Nat.le_of_succ_le_succ hdepth)
    exact Decode.mapM_map_eq fun a ha => (h a ha).decodes (hitems _ (List.mem_map_of_mem ha))

theorem record {members : List (String × Json)} (hwritten : ∀ m ∈ members, m.2.Written)
    (hdecode : ∀ depth, (∀ m ∈ members, m.2.depth ≤ depth) →
      decode (depth + 1) (record members) = some a) : Carries decode (record members) a := by
  refine ⟨.obj hwritten, fun {depth} hdepth => ?_⟩
  rw [show Json.record members = .obj (Json.keyed members) from rfl, Json.depth] at hdepth
  obtain ⟨depth, rfl⟩ : ∃ d, depth = d + 1 := ⟨depth - 1, by omega⟩
  exact hdecode depth (Json.membersDepth_le_iff.1 (Nat.le_of_succ_le_succ hdepth))

theorem tagged {name : String} {inner : Json} {decode' : Nat → Json → Option β} {b : β}
    (h : Carries decode' inner b)
    (hdecode : ∀ depth, decode' depth inner = some b →
      decode (depth + 1) (.tagged name inner) = some a) :
    Carries decode (.tagged name inner) a := by
  refine record (List.forall_mem_singleton.2 h.written) fun depth hdepth => ?_
  exact hdecode depth (h.decodes (hdepth (name, inner) List.mem_cons_self))

end Carries

namespace Decode

/-! Fields. -/

theorem keyed?_keyed (members : List (String × Json)) :
    keyed? (Json.keyed members) = some members := by
  induction members with
  | nil => rfl
  | cons m members ih =>
    rw [show Json.keyed (m :: members) = (some m.1, m.2) :: Json.keyed members from rfl, keyed?, ih]
    rfl

theorem filter_key {members : List (String × Json)} (hnodup : (members.map Prod.fst).Nodup)
    {m : String × Json} (hm : m ∈ members) : members.filter (·.1 == m.1) = [m] := by
  induction members with
  | nil => cases hm
  | cons m' members ih =>
    obtain ⟨hnew, hrest⟩ := List.nodup_cons.1 hnodup
    rcases List.mem_cons.1 hm with rfl | hm
    · rw [List.filter_cons_of_pos (by simp), List.filter_eq_nil_iff.2]
      intro m' hm' heq
      exact hnew (by simpa [eq_of_beq heq] using List.mem_map_of_mem (f := Prod.fst) hm')
    · rw [List.filter_cons_of_neg, ih hrest hm]
      intro heq
      exact hnew (by simpa [eq_of_beq heq] using List.mem_map_of_mem (f := Prod.fst) hm)

theorem named?_of_mem {members ms : List (String × Json)} {schema : Schema}
    (hnodup : (members.map Prod.fst).Nodup) (hnames : schema.map Prod.fst = ms.map Prod.fst)
    (hmem : ∀ m ∈ ms, m ∈ members) : named? members schema = some (ms.map fun m => some m.2) := by
  induction schema generalizing ms with
  | nil =>
    obtain rfl : ms = [] := by simpa using hnames.symm
    rfl
  | cons field schema ih =>
    cases ms with
    | nil => simp at hnames
    | cons m ms =>
      obtain ⟨hname, hnames⟩ := List.cons.inj hnames
      have hfield := filter_key hnodup (hmem m List.mem_cons_self)
      rw [← hname] at hfield
      rw [named?, hfield, ih hnames fun m' hm' => hmem m' (List.mem_cons_of_mem m hm')]
      rfl

theorem fields?_record {schema : Schema} {members : List (String × Json)}
    (hnames : schema.map Prod.fst = members.map Prod.fst)
    (hnodup : (schema.map Prod.fst).Nodup) :
    fields? schema (record members) = some (members.map fun m => some m.2) := by
  rw [show record members = .obj (Json.keyed members) from rfl, fields?, keyed?_keyed]
  exact named?_of_mem (hnames ▸ hnodup) hnames fun m hm => hm

/-! Scalars. -/

theorem int?_ofInt (n : Int) : int? (ofInt n) = some n := Numeral.toInt?_ofInt n

theorem nat?_ofNat {bound n : Nat} (h : n < bound) : nat? bound (.ofNat n) = some n := by
  simp only [nat?, Json.ofNat, int?_ofInt]
  exact if_pos h

theorem uint16?_ofNat (n : UInt16) : uint16? (.ofNat n.toNat) = some n := by
  rw [uint16?, nat?_ofNat n.toNat_lt_size, Option.map_some, UInt16.ofNat_toNat]

theorem uint32?_ofUInt32 (n : UInt32) : uint32? (.ofUInt32 n) = some n := by
  rw [uint32?, Json.ofUInt32, nat?_ofNat n.toNat_lt_size, Option.map_some, UInt32.ofNat_toNat]

theorem int32?_ofInt (n : Int32) : int32? (ofInt n.toInt) = some n := by
  have hlo := n.le_toInt
  have hhi := n.toInt_lt
  simp only [int32?, int?_ofInt]
  rw [if_pos (by omega), Int32.ofInt_toInt]

theorem char?_singleton (c : Char) : char? (ofString (String.singleton c)) = some c := by
  simp [char?, text?, ofString]

end Decode

namespace Json

theorem written_ofInt (n : Int) : (ofInt n).Written := .num (Numeral.proper_ofInt n)

theorem written_ofUInt32 (n : UInt32) : (ofUInt32 n).Written := written_ofInt _

end Json

theorem BinOp.ofName?_name (op : BinOp) : BinOp.ofName? op.name = some op := by
  cases op <;> decide

theorem UnaryOp.ofName?_name (op : UnaryOp) : UnaryOp.ofName? op.name = some op := by
  cases op <;> decide

theorem Bound.ofName?_name (b : Bound) : Bound.ofName? b.name = some b := by
  cases b <;> decide

/-! Places. -/

theorem Span.carries (s : Span) : Carries Decode.span? s.toJson s := by
  refine .record ?_ fun depth _ => ?_
  · simp [Json.written_ofUInt32, Json.ofNat, Json.written_ofInt]
  · rw [Decode.span?, Decode.fields?_record rfl (by decide)]
    simp [Decode.defaulted?, Decode.uint16?_ofNat, Decode.uint32?_ofUInt32]

theorem Ty.carries : (ty : Ty) → Carries Decode.ty? ty.toJson ty
  | .bool | .char | .int | .float | .void => by
    refine ⟨.str _, fun {depth} _ => ?_⟩
    cases depth <;> rfl
  | .interval sub => by
    refine .tagged sub.carries fun depth h => ?_
    simp [Decode.ty?, Json.tagged, record, h]
  | .struct id => by
    refine .record (by simp [Json.written_ofUInt32]) fun depth h => ?_
    simp [Decode.ty?, record, Decode.uint32?_ofUInt32]

theorem carries_offset (o : Int32) :
    Carries Decode.offset? (record [("offset", ofInt o.toInt)]) o := by
  refine .record (by simp [Json.written_ofInt]) fun depth _ => ?_
  rw [Decode.offset?, Decode.fields?_record rfl (by decide)]
  simp [Decode.int32?_ofInt]

theorem Storage.carries (s : Storage) : Carries Decode.storage? s.toJson s := by
  cases s with
  | _ o =>
    refine .tagged (carries_offset o) fun depth h => ?_
    simpa [Decode.storage?, Decode.tagged?, Json.tagged, record] using h

theorem Binding.carries (b : Binding) : Carries Decode.binding? b.toJson b := by
  have hty := b.ty.carries
  have hstorage := b.storage.carries
  refine .record ?_ fun depth hdepth => ?_
  · simp [Written.str, hty.written, hstorage.written]
  · simp only [List.forall_mem_cons] at hdepth
    rw [Decode.binding?, Decode.fields?_record rfl (by decide)]
    simp [Decode.text?, ofString, hty.decodes hdepth.2.1, hstorage.decodes hdepth.2.2.1]

theorem Scope.carries (s : Scope) : Carries Decode.scope? s.toJson s := by
  have hbindings := Carries.list fun b (_ : b ∈ s.bindings) => b.carries
  refine .record ?_ fun depth hdepth => ?_
  · simp [Json.written_ofUInt32, hbindings.written]
  · simp only [List.forall_mem_cons] at hdepth
    rw [Decode.scope?, Decode.fields?_record rfl (by decide)]
    simp [Decode.uint32?_ofUInt32, hbindings.decodes hdepth.2.1]

end IntervalStack
