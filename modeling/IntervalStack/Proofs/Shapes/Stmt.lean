import IntervalStack.Proofs.Shapes.Expr

/-! The shape of the operand stack along the code of statements. Between two statements the stack is
empty. Behind a statement that control does not leave by its end, anything may stand. -/

namespace IntervalStack.Shapes
open Generator Outline
open IntervalStack.Flow (Assignable)

structure Around (Γ : String → Option (List Tag)) (ctx : Context) : Prop where
  loop : ∀ loop, ctx.loop = some loop → Γ loop.endLabel = some []
  exit : ∀ r, ctx.routine = some r →
    Γ r.exitLabel = some ((resultShape r.returnType).tags r.returnType)

structure Proceeds (ctx : Context) (n n' : Nat) (completes : Bool) (o : Outline) : Prop where
  le : n ≤ n'
  labels : ∀ l, .label l ∈ o.code → IsBetween n n' l
  fits : ∀ pre y, Code.HasTexts pre → (completes = true → y = some []) →
    Assignable n n' fun Γ => Around Γ ctx → shapeFlow.Fits Γ pre (some []) o y

section
variable {ctx ctx' : Context} {n m n' : Nat} {b b' : Bool} {o o' : Outline} {s : State}

theorem Converts.proceeds (h : Converts n n' [] [] o) : Proceeds ctx n n' true o := by
  refine ⟨h.le, h.labels, fun pre y hpre hy => (h.fits pre [] hpre).mono fun Γ hΓ _ => ?_⟩
  rw [hy rfl]
  exact hΓ

theorem Proceeds.append (h : Proceeds ctx n m b o) (h' : Proceeds ctx m n' b' o') :
    Proceeds ctx n n' (b && b') (o ++ o') := by
  refine ⟨Nat.le_trans h.le h'.le, fun l hl => ?_, fun pre y hpre hy => ?_⟩
  · rw [code_append, List.mem_append] at hl
    rcases hl with hl | hl
    · exact (h.labels l hl).mono (Nat.le_refl n) h'.le
    · exact (h'.labels l hl).mono h.le (Nat.le_refl n')
  cases b with
  | true =>
    refine ((h.fits pre (some []) hpre fun _ => rfl).and
      (h'.fits (pre ++ o.code) y (hpre.append _) hy) h.le h'.le).mono fun Γ hΓ ha => ?_
    exact (hΓ.1 ha).append (hΓ.2 ha)
  | false =>
    have hdead : Assignable m n' fun Γ : String → Option (List Tag) =>
        ∀ l, IsBetween m n' l → Γ l = none :=
      ⟨fun _ => none, fun Γ hΓ l ⟨k, hk, hlo, hhi⟩ => hΓ l k hk hlo hhi⟩
    by_cases ho' : o'.code = []
    · refine ((h.fits pre y hpre fun h => (nomatch h)).and hdead h.le h'.le).mono fun Γ hΓ ha => ?_
      exact (hΓ.1 ha).append (fits_empty ho')
    · refine ((h.fits pre none hpre fun h => (nomatch h)).and hdead h.le h'.le).mono fun Γ hΓ ha => ?_
      exact (hΓ.1 ha).append (fits_dead (fun l hl => hΓ.2 l (h'.labels l hl)) fun h => absurd h ho')

theorem Proceeds.wrap (h : Proceeds ctx n n' b o) {p : Part}
    (hp : ∀ y, (b = true → y = some []) → p.Turns [] y) : Proceeds ctx n n' b (wrap p o) := by
  refine ⟨h.le, fun l hl => h.labels l (code_wrap p o ▸ hl), fun pre y hpre hy =>
    (h.fits pre y hpre hy).mono fun Γ hΓ ha => (hΓ ha).wrap ?_⟩
  rintro _ ⟨⟩
  exact hp y hy

theorem Proceeds.congr (h : Proceeds ctx n n' b o) (hl : ctx.loop = ctx'.loop)
    (hr : ctx.routine = ctx'.routine) : Proceeds ctx' n n' b o :=
  ⟨h.le, h.labels, fun pre y hpre hy => (h.fits pre y hpre hy).mono fun _ hΓ ha =>
    hΓ ⟨fun loop h => ha.loop loop (hl ▸ h), fun r h => ha.exit r (hr ▸ h)⟩⟩

theorem proceeds_ifThen (h₁ : Converts s.next.labels.count m [] [.int] o)
    (h₂ : Proceeds ctx m n' b o') :
    Proceeds ctx s.labels.count n' true
      (o ++ plain [.jumpFalse (Labels.part (s.label "if") "end")] ++ o'
        ++ plain [.label (Labels.part (s.label "if") "end")]) := by
  have hle : s.labels.count ≤ s.next.labels.count := Nat.le_succ _
  refine ⟨Nat.le_trans hle (Nat.le_trans h₁.le h₂.le), fun l hl => ?_, fun pre y hpre hy => ?_⟩
  · simp only [code_append, code_plain, List.mem_append, List.mem_singleton, reduceCtorEq, or_false,
      Instr.label.injEq] at hl
    rcases hl with (hl | hl) | rfl
    · exact (h₁.labels l hl).mono hle h₂.le
    · exact (h₂.labels l hl).mono (Nat.le_trans hle h₁.le) (Nat.le_refl _)
    · exact (isBetween_part s "end" (by decide : "if" ∈ stems)).mono (Nat.le_refl _)
        (Nat.le_trans h₁.le h₂.le)
  · rw [hy rfl]
    have hbody := h₂.fits (pre ++ o.code ++ [.jumpFalse (Labels.part (s.label "if") "end")]) (some [])
      ((hpre.append _).append _) fun _ => rfl
    refine ((Assignable.choose s.labels.count fun _ => some []).and
      ((h₁.fits pre [] hpre).and hbody h₁.le h₂.le) hle (Nat.le_trans h₁.le h₂.le)).mono ?_
    rintro Γ ⟨hΓ, hcond, hbody⟩ ha
    have hend : Γ (Labels.part (s.label "if") "end") = some [] :=
      hΓ _ (number?_part s _ (by decide))
    simp only [Outline.append_assoc]
    exact hcond.append (fits_branch rfl rfl rfl (.inr hend)
      ((hbody ha).append (fits_label hend rfl)))

theorem proceeds_ifElse {k : Nat} {o₁ o₂ o₃ : Outline}
    (h₁ : Converts s.next.labels.count m [] [.int] o₁) (h₂ : Proceeds ctx m k b o₂)
    (h₃ : Proceeds ctx k n' b' o₃) :
    Proceeds ctx s.labels.count n' (b || b')
      (o₁ ++ plain [.jumpFalse (Labels.part (s.label "if") "else")] ++ o₂
        ++ plain [.jump (Labels.part (s.label "if") "end"),
          .label (Labels.part (s.label "if") "else")] ++ o₃
        ++ plain [.label (Labels.part (s.label "if") "end")]) := by
  have hle : s.labels.count ≤ s.next.labels.count := Nat.le_succ _
  have hle₂ : s.labels.count ≤ m := Nat.le_trans hle h₁.le
  have hle₃ : m ≤ n' := Nat.le_trans h₂.le h₃.le
  refine ⟨Nat.le_trans hle₂ hle₃, fun l hl => ?_, fun pre y hpre hy => ?_⟩
  · simp only [code_append, code_plain, List.mem_append, List.mem_cons, List.not_mem_nil,
      reduceCtorEq, or_false, false_or, Instr.label.injEq] at hl
    have hlabel := fun part => (isBetween_part s part (by decide : "if" ∈ stems)).mono
      (Nat.le_refl _) (Nat.le_trans h₁.le hle₃)
    rcases hl with (((hl | hl) | rfl) | hl) | rfl
    · exact (h₁.labels l hl).mono hle hle₃
    · exact (h₂.labels l hl).mono hle₂ h₃.le
    · exact hlabel _
    · exact (h₃.labels l hl).mono (Nat.le_trans hle₂ h₂.le) (Nat.le_refl _)
    · exact hlabel _
  · let no := Labels.part (s.label "if") "else"
    let join := Labels.part (s.label "if") "end"
    let p₂ := pre ++ o₁.code ++ [.jumpFalse no]
    have hp₂ : Code.HasTexts p₂ := (hpre.append _).append _
    have hp₃ : Code.HasTexts (p₂ ++ o₂.code ++ [.jump join] ++ [.label no]) :=
      ((hp₂.append _).append _).append _
    have hyes := h₂.fits p₂ (if b then some [] else none) hp₂ fun h => if_pos h
    have hno := h₃.fits _ y hp₃ fun h => hy (by simp [h])
    refine ((Assignable.choose s.labels.count fun l => if l = no then some [] else y).and
      ((h₁.fits pre [] hpre).and (hyes.and hno h₂.le h₃.le) h₁.le hle₃) hle
        (Nat.le_trans h₁.le hle₃)).mono ?_
    rintro Γ ⟨hΓ, hcond, hyes, hno⟩ ha
    have helse : Γ no = some [] := (hΓ _ (number?_part s _ (by decide))).trans (if_pos rfl)
    have hjoin : Γ join = y := by
      refine (hΓ _ (number?_part s _ (by decide))).trans (if_neg fun h => ?_)
      exact absurd (part_inj h) (by decide)
    have hleft : ∀ st, (if b then some [] else none) = some st →
        join ∈ fatalHandlers ∨ Γ join = some st := by
      intro st hst
      cases b with
      | true => exact .inr (by rw [hjoin, hy rfl]; exact hst)
      | false => cases hst
    simp only [Outline.append_assoc]
    refine hcond.append (fits_branch rfl rfl rfl (.inr helse) ((hyes ha).append ?_))
    exact fits_jump hleft (fits_label helse ((hno ha).append (fits_label hjoin rfl)))

theorem proceeds_loop {loop : Loop} (hend : loop.endLabel = Labels.part (s.label "while") "end")
    (h₁ : Converts s.next.labels.count m [] [.int] o)
    (h₂ : Proceeds { ctx with loop := some loop } m n' b o') :
    Proceeds ctx s.labels.count n' true
      (plain [.label (Labels.part (s.label "while") "test")] ++ o
        ++ plain [.jumpFalse (Labels.part (s.label "while") "end")] ++ o'
        ++ plain [.jump (Labels.part (s.label "while") "test"),
          .label (Labels.part (s.label "while") "end")]) := by
  have hle : s.labels.count ≤ s.next.labels.count := Nat.le_succ _
  refine ⟨Nat.le_trans hle (Nat.le_trans h₁.le h₂.le), fun l hl => ?_, fun pre y hpre hy => ?_⟩
  · simp only [code_append, code_plain, List.mem_append, List.mem_cons, List.not_mem_nil,
      reduceCtorEq, or_false, false_or, Instr.label.injEq] at hl
    have hlabel := fun part => (isBetween_part s part (by decide : "while" ∈ stems)).mono
      (Nat.le_refl _) (Nat.le_trans h₁.le h₂.le)
    rcases hl with ((rfl | hl) | hl) | rfl
    · exact hlabel _
    · exact (h₁.labels l hl).mono hle h₂.le
    · exact (h₂.labels l hl).mono (Nat.le_trans hle h₁.le) (Nat.le_refl _)
    · exact hlabel _
  · rw [hy rfl]
    let test := Labels.part (s.label "while") "test"
    let stop := Labels.part (s.label "while") "end"
    have hp₁ : Code.HasTexts (pre ++ [.label test]) := hpre.append _
    have hbody := h₂.fits (pre ++ [.label test] ++ o.code ++ [.jumpFalse stop]) (some [])
      ((hp₁.append _).append _) fun _ => rfl
    refine ((Assignable.choose s.labels.count fun _ => some []).and
      ((h₁.fits _ [] hp₁).and hbody h₁.le h₂.le) hle (Nat.le_trans h₁.le h₂.le)).mono ?_
    rintro Γ ⟨hΓ, hcond, hbody⟩ ha
    have htest : Γ test = some [] := hΓ _ (number?_part s _ (by decide))
    have hstop : Γ stop = some [] := hΓ _ (number?_part s _ (by decide))
    have hin : Around Γ { ctx with loop := some loop } := by
      refine ⟨?_, ha.exit⟩
      rintro _ ⟨⟩
      rw [hend]
      exact hstop
    simp only [Outline.append_assoc]
    refine fits_label htest (hcond.append (fits_branch rfl rfl rfl (.inr hstop) ?_))
    refine (hbody hin).append (fits_jump (z := some []) ?_ (fits_label hstop rfl))
    rintro _ ⟨⟩
    exact .inr htest

theorem proceeds_jump {l : String} {st : List Tag} (h : Converts n n' [] st o)
    (hl : ∀ Γ, Around Γ ctx → Γ l = some st) :
    Proceeds ctx n n' false (o ++ plain [.jump l]) := by
  refine ⟨h.le, fun l' hl' => h.labels l' (by simpa using hl'), fun pre y hpre _ => ?_⟩
  refine (h.fits pre [] hpre).mono fun Γ hΓ ha => hΓ.append (fits_jump (z := y) ?_ rfl)
  rintro _ ⟨⟩
  exact .inr (by rw [hl Γ ha, List.append_nil])

end

section
variable {selfSlot : Option Int32} {bs : List Binding}

theorem turns_clears {c : Code} (h : Clears selfSlot bs c) : Turns c [] [] := by
  induction h with
  | nil => exact turns_nil []
  | cons ha _ ih => exact ((turns_storageAddress ha).append (.local rfl fun _ _ _ => rfl)).append ih

theorem converts_releases {n : Nat} {o : Outline} (h : Releases selfSlot bs o) :
    Converts n n [] [] o := by
  induction h with
  | nil => exact .straight (turns_nil [])
  | @cons b bs c o ha _ ih =>
    have hload : Turns [.loadI] [.int] [.int] := .local rfl fun _ _ _ => rfl
    have hrelease := (turns_storageAddress ha).append (hload.append turns_push)
    exact ((Converts.straight hrelease).wrap (p := .release b) fun _ => rfl).append ih

end

theorem turns_drain : Turns [RefCounter.drain] [] [] :=
  .runtime (by simp [runtimeCalls]) fun _ _ _ => rfl

theorem turns_drainIf (b : Bool) : Turns (drainIf b) [] [] := by
  cases b
  · exact turns_nil []
  · exact turns_drain

theorem turns_releaseOld (ty : Ty) : Turns (releaseOld ty) [.int] [.int] := by
  unfold releaseOld
  split
  · exact Turns.append (c := [.duplicate, .loadI]) (v := [.int, .int])
      (.local rfl fun _ _ _ => rfl) (turns_push.frame [.int])
  · exact turns_nil _

theorem turns_dropCode (ty : Ty) (shape : Shape) :
    Turns (dropCode ty shape) (shape.tags ty) [] := by
  cases shape with
  | void => exact turns_nil []
  | address => exact .local rfl fun _ _ _ => rfl
  | value =>
    rw [dropCode]
    split
    · next h =>
      rw [Shape.tags, tag_of_isHeap h]
      exact turns_push
    · exact .local rfl fun _ _ _ => rfl

theorem turns_printString {l : String} {tags : List Tag}
    (h : (Code.printedTexts.lookup l).bind Code.formatTags? = some tags) :
    Turns (Environment.printString l) tags [] := by
  refine ⟨rfl, fun pre st hpre => ?_⟩
  obtain ⟨text, hlookup, htags⟩ := Option.bind_eq_some_iff.1 h
  obtain ⟨before, after, htexts, -⟩ := List.lookup_eq_some_iff.1 hlookup
  have htext : Code.textAt? l (pre ++ [.pushD l]) = some text :=
    hpre.append [.pushD l] (l, text) (by rw [htexts]; simp)
  have hformat : Code.pushedFormat? (pre ++ [.pushD l]) = some tags := by
    simp [Code.pushedFormat?, htext, htags]
  have hpush : effect pre (.pushD l) (tags ++ st) = some (.int :: (tags ++ st)) := rfl
  have hprint : effect (pre ++ [.pushD l]) .printf (.int :: (tags ++ st)) = some st := by
    rw [effect, hformat]
    exact exchangeTop_append (.int :: tags) [] st
  simp only [Environment.printString, effects, hpush, Option.bind_some, hprint, List.nil_append]

theorem converts_printScalar {k : ScalarKind} {s s' : State} {c : Code}
    (h : printScalar k s = .ok (c, s')) :
    Converts s.labels.count s'.labels.count [k.ty.tag] [] (plain c) := by
  rcases printScalar_ok h with ⟨rfl, rfl, rfl⟩ | ⟨rfl, rfl, rfl⟩ | ⟨rfl, rfl, rfl⟩ | ⟨rfl, rfl, rfl⟩
  · rw [printBoolCode, plain_append]
    exact Converts.append (.choice (by decide) (by decide) rfl rfl (fun _ _ => rfl)
      (.local rfl fun _ _ _ => rfl) (.local rfl fun _ _ _ => rfl))
      (.straight (turns_printString (by decide)))
  all_goals exact .straight (turns_printString (by decide))

def TaskOk (t : Typing) : Task → Prop
  | .item e => t.exprOk e = true
  | .spaced _ es => t.exprsOk es = true
  | .stmt _ s => t.stmtOk s = true
  | .stmts ss => t.stmtsOk ss = true
  | .block _ b => t.blockOk b = true

def TaskRuns (ctx : Context) (n n' : Nat) (o : Outline) : Task → Prop
  | .item _ => Converts n n' [] [] o
  | .spaced space _ => Turns space [] [] → Converts n n' [] [] o
  | .stmt _ s => Proceeds ctx n n' s.completes o
  | .stmts ss => Proceeds ctx n n' (stmtsComplete ss) o
  | .block _ b => Proceeds ctx n n' b.completes o

structure Agrees (t : Typing) (ctx : Context) : Prop where
  program : t.program = ctx.program
  returns : t.returns = ctx.routine.map (·.returnType)

theorem turns_space (b : Bool) {l : String}
    (h : (Code.printedTexts.lookup l).bind Code.formatTags? = some []) :
    Turns (if b then Environment.printString l else []) [] [] := by
  cases b
  · exact turns_nil []
  · exact turns_printString h

section
variable {t : Typing} {ctx : Context} {task : Task} {s s' : State} {o : Outline}

theorem cond_converts {e : Expr} {a : Shape} (h : Emits ctx (.value e a) s o s')
    (hp : t.program = ctx.program) (he : t.exprOk e = true) (hty : e.ty = .bool) :
    Converts s.labels.count s'.labels.count [] [.int] o := by
  have hc := emits_converts h hp he
  rwa [jobLeaves, hty] at hc

theorem shape_of_value {e : Expr} {shape : Shape} (h : Emits ctx (.value e shape) s o s')
    (hh : e.ty.isHeap = true) : shape.tags e.ty = [.int] := by
  cases h with
  | used => rw [Shape.tags, tag_of_isHeap hh]
  | loaded => rfl

theorem scalarKind_ty {ty : Ty} {k : ScalarKind} (h : ScalarKind.of? ty = some k) : k.ty = ty := by
  cases ty <;> cases h <;> rfl

theorem turns_printer (k : ScalarKind) : Turns [.call k.printer] [.int] [] := by
  cases k <;> exact ⟨by decide +kernel, fun _ _ _ => rfl⟩

theorem turns_duplicate : Turns [.duplicate] [.int] [.int, .int] := .local rfl fun _ _ _ => rfl

section
variable {n m n' : Nat} {o₁ o₂ : Outline} {ty : Ty}

theorem printerMethod_converts {typeCode : Int32} {method : String} (h : Converts n m [] [.int] o) :
    Converts n m [] [] (o ++ plain ([Instr.duplicate] ++ Frame.pushArgument cells .int
      ++ [Instr.call (methodLabel typeCode method)] ++ Frame.fetchResult cells ty ++ releaseReceiver ty
      ++ dropCode ty (resultShape ty))) := by
  have hself : Turns (Frame.pushArgument cells .int) [.int] [] := turns_pushArgument (by decide)
  have hcall := (turns_duplicate.append (hself.frame [.int])).append
    ((isRoutine_methodLabel typeCode method).turns.frame [.int])
  have hresult := (hcall.append ((turns_fetchResult ty).frame [.int])).append
    (turns_releaseReceiver ty)
  exact h.append (.straight (hresult.append (turns_dropCode ty _)))

theorem turns_nameCode (l : StructLayout) : Turns (nameCode l) [] [] :=
  Turns.append (c := [.pushD _]) (v := [.int]) (.local rfl fun _ _ _ => rfl)
    (turns_printString (by decide))

theorem update_converts {store : Instr} (hs : Instr.store? ty = some store)
    (h₁ : Converts n m [] [ty.tag] o₁) (h₂ : Converts m n' [] [.int] o₂) :
    Converts n n' [] [] (o₁ ++ o₂ ++ plain (releaseOld ty ++ [Instr.exchange, store])) := by
  have hswap : Turns [.exchange] [.int, ty.tag] [ty.tag, .int] := .local rfl fun _ _ _ => rfl
  exact (h₁.append (h₂.frame [_])).append (.straight (((turns_releaseOld _).frame [_]).append
    (hswap.append (turns_store hs))))

theorem proceeds_return {r : Routine} (hr : ctx.routine = some r) (hv : r.returnType ≠ .void)
    (hty : ty = r.returnType) (h : Converts n m [] [ty.tag] o₁) (hs : Converts m m [] [] o₂) :
    Proceeds ctx n m false (o₁ ++ o₂ ++ plain [.jump r.exitLabel]) := by
  refine proceeds_jump (h.append (hs.frame [_])) fun Γ hΓ => ?_
  rw [hΓ.exit _ hr, resultShape, if_neg hv, ← hty]
  rfl

theorem proceeds_block {b d : Bool} {selfSlot : Option Int32} {bs : List Binding} {c : Code}
    (hc : Clears selfSlot bs c) (h : Proceeds ctx n m b o₁) (hr : Releases selfSlot bs o₂) :
    Proceeds ctx n m b (plain c ++ o₁ ++ o₂ ++ plain (drainIf d)) := by
  have hclear : Proceeds ctx n n true (plain c) := (Converts.straight (turns_clears hc)).proceeds
  have hreleased := (hclear.append h).append (converts_releases hr).proceeds
  have hend := hreleased.append (Converts.straight (turns_drainIf d)).proceeds
  simpa only [Bool.true_and, Bool.and_true] using hend

end

theorem performs_runs (h : Performs ctx task s o s') (ha : Agrees t ctx) (ht : TaskOk t task) :
    TaskRuns ctx s.labels.count s'.labels.count o task := by
  induction h with
  | scalar hk he hp =>
    have h := emits_converts he ha.program ht
    rw [jobLeaves, ← scalarKind_ty hk] at h
    exact h.append (converts_printScalar hp)
  | @freshInterval ctx e sub k s s' o hty hk he =>
    have h := emits_converts he ha.program ht
    rw [jobLeaves, hty] at h
    exact (h.wrap (p := .record e) fun _ => rfl).append
      (.straight (turns_duplicate.append (((turns_printer k).frame [.int]).append turns_push)))
  | @storedInterval ctx e sub k s s' o hty hk he =>
    have h := emits_converts he ha.program ht
    rw [jobLeaves, hty] at h
    exact (h.wrap (p := .record e) fun _ => rfl).append (.straight (turns_printer k))
  | printerMethod hty hd hp hf hl hn he =>
    have h := emits_converts he ha.program ht
    rw [jobLeaves, hty] at h
    exact printerMethod_converts h
  | structName hty hd hp hl he =>
    have hh : Ty.isHeap _ = true := congrArg Ty.isHeap hty
    have h := emits_converts he ha.program ht
    rw [jobLeaves, tag_of_isHeap hh, ← shape_of_value he hh] at h
    exact h.append (.straight ((turns_dropCode _ _).append (turns_nameCode _)))
  | noItems => exact fun _ => .straight (turns_nil [])
  | items _ _ ih₁ ih₂ =>
    simp only [TaskOk, Typing.exprsOk, Bool.and_eq_true] at ht
    exact fun hspace => ((Converts.straight hspace).append (ih₁ ha ht.1)).append
      (ih₂ ha ht.2 hspace)
  | printNone =>
    simp only [TaskRuns, Stmt.completes]
    exact (Converts.straight (turns_space _ (by decide))).proceeds
  | print _ _ ih₁ ih₂ =>
    simp only [TaskOk, Typing.stmtOk, Typing.exprsOk, Bool.and_eq_true] at ht
    simp only [TaskRuns, Stmt.completes]
    exact (((ih₁ ha ht.1).append (ih₂ ha ht.2 (turns_space _ (by decide)))).append
      (.straight (turns_space _ (by decide)))).proceeds
  | declaration hs hc he =>
    simp only [TaskOk, Typing.stmtOk, Bool.and_eq_true, decide_eq_true_eq] at ht
    simp only [TaskRuns, Stmt.completes]
    have h := emits_converts he ha.program ht.1
    rw [jobLeaves, ht.2] at h
    exact (((Converts.straight (turns_storageAddress hc)).append (h.frame [.int])).append
      (.straight (turns_store hs))).proceeds
  | update hs he htarget =>
    simp only [TaskOk, Typing.stmtOk, Bool.and_eq_true, decide_eq_true_eq] at ht
    simp only [TaskRuns, Stmt.completes]
    have h := emits_converts he ha.program ht.1.2
    rw [jobLeaves, ht.2] at h
    exact (update_converts hs h (emits_converts htarget ha.program ht.1.1)).proceeds
  | ifThen hc _ ih =>
    simp only [TaskOk, Typing.stmtOk, Bool.and_eq_true, decide_eq_true_eq] at ht
    simp only [TaskRuns, Stmt.completes]
    exact proceeds_ifThen (cond_converts hc ha.program ht.1.1 ht.1.2) (ih ha ht.2)
  | ifElse hc _ _ ih₁ ih₂ =>
    simp only [TaskOk, Typing.stmtOk, Bool.and_eq_true, decide_eq_true_eq] at ht
    simp only [TaskRuns, Stmt.completes]
    exact proceeds_ifElse (cond_converts hc ha.program ht.1.1.1 ht.1.1.2) (ih₁ ha ht.1.2)
      (ih₂ ha ht.2)
  | loop hc _ ih =>
    simp only [TaskOk, Typing.stmtOk, Bool.and_eq_true, decide_eq_true_eq] at ht
    simp only [TaskRuns, Stmt.completes]
    have hcond := cond_converts hc ha.program ht.1.1 ht.1.2
    exact proceeds_loop rfl hcond (ih ⟨ha.program, ha.returns⟩ ht.2)
  | leave hl hr =>
    simp only [TaskRuns, Stmt.completes]
    rw [plain_append, ← Outline.append_assoc]
    exact proceeds_jump ((converts_releases hr).append (.straight (turns_drainIf _)))
      fun Γ hΓ => hΓ.loop _ hl
  | retNone hr hv hs =>
    simp only [TaskRuns, Stmt.completes]
    exact proceeds_jump (converts_releases hs) fun Γ hΓ => by rw [hΓ.exit _ hr, hv]; rfl
  | ret hr hv he hs =>
    simp only [TaskOk, Typing.stmtOk, Bool.and_eq_true, decide_eq_true_eq] at ht
    simp only [TaskRuns, Stmt.completes]
    have hreturns := ha.returns
    rw [ht.2, hr] at hreturns
    exact proceeds_return hr hv (Option.some.inj hreturns) (emits_converts he ha.program ht.1)
      (converts_releases hs)
  | call he =>
    simp only [TaskRuns, Stmt.completes]
    exact ((emits_converts he ha.program ht).append (.straight (turns_dropCode _ _))).proceeds
  | nested _ ih =>
    simp only [TaskRuns, Stmt.completes]
    exact ih ha ht
  | noStmts =>
    simp only [TaskRuns, stmtsComplete]
    exact (Converts.straight (turns_nil [])).proceeds
  | @stmts ctx node _ _ _ _ _ _ _ _ _ ih₁ ih₂ =>
    simp only [TaskOk, Typing.stmtsOk, Bool.and_eq_true] at ht
    simp only [TaskRuns, stmtsComplete]
    exact ((ih₁ ha ht.1).wrap (p := .stmt ctx.scopes node) fun _ hy => ⟨rfl, hy⟩).append
      (ih₂ ha ht.2)
  | block hc _ hr ih =>
    simp only [TaskRuns, Block.completes]
    exact proceeds_block hc ((ih ⟨ha.program, ha.returns⟩ ht).congr rfl rfl) hr

end

end IntervalStack.Shapes
