import Dimacs.Proofs.Formula.Backbone
import Dimacs.Proofs.Formula.Record
import Mathlib.Data.List.Nodup

/-
  Hint files of different kinds do not interfere. Each of
  them changes one part of a formula, and what it makes of
  this part depends on the translation only, so that they
  can be read in any order; and what is added to a formula
  later keeps all hints.

  Key definitions include:
    * `HintFile`
    * `Formula.withHint`
    * `Formula.readHints`
    * `Formula.KeepsHints`

  Main statements:
    * `Formula.Holds.exists_readHint`
    * `Formula.readHints_eq`
    * `Formula.foldl_withHint_perm`
    * `Formula.keepsHints_foldl_apply`
    * `Formula.hint_files_are_independent`
-/

namespace Dimacs

------------------------------------------------------------
-- Hints
------------------------------------------------------------

/- The parts of a formula that hint files are about. -/
inductive HintKind where
  | phases (mode : BackboneMode)
  | order
deriving DecidableEq

/- What such a part may be. -/
inductive Hint where
  | phases (mode : BackboneMode) (table : Table 1 Phase)
  | order (listed : Buffer 4 Variable)

/- The part that a hint belongs to. -/
def Hint.kind : Hint → HintKind
  | .phases mode _ => .phases mode
  | .order _ => .order

theorem Hint.eq_phases
    {hint : Hint}
    {mode : BackboneMode}
    (h : hint.kind = .phases mode) :
    ∃ table, hint = .phases mode table := by
  cases hint with
  | phases other table =>
      rcases HintKind.phases.inj h with rfl
      exact ⟨table, rfl⟩
  | order listed => cases h

theorem Hint.eq_order
    {hint : Hint}
    (h : hint.kind = .order) :
    ∃ listed, hint = .order listed := by
  cases hint with
  | phases mode table => cases h
  | order listed => exact ⟨listed, rfl⟩

/- A hint file, as far as it is not yet read. -/
inductive HintFile where
  | backbone (b : Backbone) (c : Cursor)
  | unsatOrder (c : Cursor)

namespace HintFile

/- The part that a file is about. -/
def kind : HintFile → HintKind
  | .backbone b _ => .phases b.mode
  | .unsatOrder _ => .order

/-
  The number of entries of a file, for which no variable has
  to be known.
-/
def count : HintFile → Nat
  | .backbone b c =>
      match b.read (fun _ => none) c with
      | .ok reading _ => reading.entries
      | .error _ _ => 0
  | .unsatOrder c =>
      match UnsatOrder.read c with
      | .ok indices _ => indices.length
      | .error _ _ => 0

end HintFile

/-
  Entries are counted whether they name a variable that is
  known or not.
-/
theorem HintFile.count_backbone
    {lookup : Nat → Option Variable}
    {b : Backbone}
    {c c' : Cursor}
    {reading : Backbone.Reading}
    (h : b.read lookup c = .ok reading c') :
    (HintFile.backbone b c).count = reading.entries := by
  rcases b with ⟨_ | _, threshold, defaultPhase⟩
  all_goals
    simp only [count, Backbone.read] at h ⊢
    split at h
    · cases h
    · next hEntries =>
        cases h
        rfl

namespace Formula

/- The part of a formula that files of a kind are about. -/
def hint
    (f : Formula) : HintKind → Hint
  | .phases mode => .phases mode (f.phases mode)
  | .order => .order f.order

/-
  The formula with another such part, and
  otherwise the same.
-/
def withHint
    (f : Formula) : Hint → Formula
  | .phases mode table => f.withPhases mode table
  | .order listed => { f with order := listed }

/- Read a hint file, and tell how many entries it has. -/
def readHint
    (f : Formula) :
      HintFile → Except Violation (Nat × Formula)
  | .backbone b c =>
      match f.readBackbone b c with
      | .ok reading _ => .ok reading
      | .error violation _ => .error violation
  | .unsatOrder c =>
      match f.readUnsatOrder c with
      | .ok reading _ => .ok reading
      | .error violation _ => .error violation

/-
  Read hint files one after the other, and tell how many
  entries each of them has.
-/
def readHints
    (f : Formula) :
      List HintFile → Except Violation (List Nat × Formula)
  | [] => .ok ([], f)
  | file :: files => do
      let (entries, f') ← f.readHint file
      let (counts, f'') ← f'.readHints files
      pure (entries :: counts, f'')

variable {f : Formula}
variable {literals : List Int}
variable {hint : Hint}

------------------------------------------------------------
-- One Part
------------------------------------------------------------

@[simp] theorem translation_withHint
    (f : Formula)
    (hint : Hint) :
    (f.withHint hint).translation = f.translation := by
  cases hint with
  | phases mode table =>
      exact translation_withPhases f mode table
  | order listed => rfl

/- Parts of other kinds stay as they are. -/
theorem hint_withHint_of_ne
    {kind : HintKind}
    (f : Formula)
    (h : kind ≠ hint.kind) :
    (f.withHint hint).hint kind = f.hint kind := by
  rcases hint with ⟨_ | _, table⟩ | listed <;>
    rcases kind with ⟨_ | _⟩ | _
  all_goals first | rfl | exact absurd rfl h

/- Parts of different kinds can be replaced in any order. -/
theorem withHint_comm
    {hint' : Hint}
    (f : Formula)
    (h : hint.kind ≠ hint'.kind) :
    (f.withHint hint).withHint hint' =
      (f.withHint hint').withHint hint := by
  rcases hint with ⟨_ | _, table⟩ | listed <;>
    rcases hint' with ⟨_ | _, table'⟩ | listed'
  all_goals first | rfl | exact absurd rfl h

------------------------------------------------------------
-- One File
------------------------------------------------------------

/-
  Each index that occurs adds its variable to the order, and
  nothing else changes.
-/
theorem foldl_addToOrder_eq
    (f : Formula)
    (indices : List Nat) :
    indices.foldl addToOrder f =
      f.withHint
        (.order
          ((indices.filterMap f.lookupVariable).foldl
            Buffer.push f.order)) := by
  induction indices generalizing f with
  | nil => rfl
  | cons index indices ih =>
      rw [List.foldl_cons, ih]
      cases hLookup : f.lookupVariable index with
      | none =>
          have hSame : f.addToOrder index = f := by
            rw [addToOrder, hLookup]
          rw [hSame, List.filterMap_cons_none hLookup]
      | some v =>
          have hPushed :
              f.addToOrder index =
                { f with order := f.order.push v } := by
            rw [addToOrder, hLookup]
          rw [hPushed, List.filterMap_cons_some hLookup]
          rfl

theorem readUnsatOrder_of_read
    {indices : List Nat}
    {c c' : Cursor}
    (f : Formula)
    (h : UnsatOrder.read c = .ok indices c') :
    f.readUnsatOrder c =
      .ok
        (indices.length,
          f.withHint
            (.order
              ((indices.filterMap f.lookupVariable).foldl
                Buffer.push f.order))) c' := by
  simp only [readUnsatOrder, h, foldl_addToOrder_eq]

/-
  A hint file replaces the part that it is about. By what it
  is replaced depends on the translation and on this part
  only.
-/
theorem Holds.exists_readHint
    (h : f.Holds literals)
    (file : HintFile) :
    ∃ hint : Hint,
      hint.kind = file.kind ∧
      ∀ g : Formula,
        g.translation = f.translation →
        g.hint file.kind = f.hint file.kind →
        g.readHint file =
          .ok (file.count, g.withHint hint) := by
  cases file with
  | backbone b c =>
      rcases Backbone.exists_read_guesses f.lookupVariable b
          c with
        ⟨β, name, predict?, values, c', hRead⟩
      rcases h.exists_rephased b name predict? values with
        ⟨table, _, _, _, hReads⟩
      refine ⟨.phases b.mode table, rfl, ?_⟩
      intro g hTranslation hPart
      have hPhases : g.phases b.mode = f.phases b.mode :=
        (Hint.phases.inj hPart).2
      have hRead' :=
        hReads g c _ c' hTranslation (by rw [hPhases]) hRead
      simp only [readHint, hRead',
        HintFile.count_backbone hRead]
      rfl
  | unsatOrder c =>
      rcases UnsatOrder.completes_read c with
        ⟨indices, c', hRead, _⟩
      refine
        ⟨.order
            ((indices.filterMap f.lookupVariable).foldl
              Buffer.push f.order), rfl, ?_⟩
      intro g hTranslation hPart
      have hOrder : g.order = f.order :=
        Hint.order.inj hPart
      have hLookup := lookupVariable_congr hTranslation
      simp only [readHint, g.readUnsatOrder_of_read hRead,
        HintFile.count, hRead, hLookup, hOrder]

------------------------------------------------------------
-- Several Files
------------------------------------------------------------

/-
  What each of several files makes of a formula can be said
  of them in advance, since a part that is still to be read
  stays as it was.
-/
theorem readHints_eq
    {hint : HintFile → Hint}
    {files : List HintFile}
    {g : Formula}
    (hKind : ∀ file, (hint file).kind = file.kind)
    (hRead :
      ∀ file (g : Formula),
        g.translation = f.translation →
        g.hint file.kind = f.hint file.kind →
        g.readHint file =
          .ok (file.count, g.withHint (hint file)))
    (hNodup : (files.map HintFile.kind).Nodup)
    (hTranslation : g.translation = f.translation)
    (hSame :
      ∀ file ∈ files, g.hint file.kind = f.hint file.kind) :
    g.readHints files =
      .ok
        (files.map HintFile.count,
          files.foldl (fun g file => g.withHint (hint file))
            g) := by
  induction files generalizing g with
  | nil => rfl
  | cons file files ih =>
      rw [List.map_cons, List.nodup_cons] at hNodup
      rw [List.forall_mem_cons] at hSame
      have hTranslation' :
          (g.withHint (hint file)).translation =
            f.translation := by
        rw [translation_withHint, hTranslation]
      have hRest :
          ∀ other ∈ files,
            (g.withHint (hint file)).hint other.kind =
              f.hint other.kind := by
        intro other hOther
        have hNe : other.kind ≠ (hint file).kind := by
          rw [hKind]
          intro hEq
          exact hNodup.1 (hEq ▸ List.mem_map_of_mem hOther)
        rw [hint_withHint_of_ne g hNe, hSame.2 other hOther]
      rw [readHints, hRead file g hTranslation hSame.1]
      simp only [bind, Except.bind, pure, Except.pure,
        ih hNodup.2 hTranslation' hRest]
      rfl

/-
  Files of different kinds are read one after the other as
  if each of them were the only one.
-/
theorem Holds.exists_readHints
    (h : f.Holds literals) :
    ∃ hint : HintFile → Hint,
      (∀ file, (hint file).kind = file.kind) ∧
      (∀ file,
        f.readHint file =
          .ok (file.count, f.withHint (hint file))) ∧
      ∀ files : List HintFile,
        (files.map HintFile.kind).Nodup →
        f.readHints files =
          .ok
            (files.map HintFile.count,
              files.foldl
                (fun g file => g.withHint (hint file))
                f) := by
  choose hint hKind hRead using h.exists_readHint
  refine ⟨hint, hKind, ?_, ?_⟩
  · intro file
    exact hRead file f rfl rfl
  · intro files hNodup
    exact readHints_eq hKind hRead hNodup rfl fun _ _ => rfl

/-
  Parts of different kinds are replaced in any order with
  the same result.
-/
theorem foldl_withHint_perm
    {hint : HintFile → Hint}
    {files files' : List HintFile}
    (hKind : ∀ file, (hint file).kind = file.kind)
    (hNodup : (files.map HintFile.kind).Nodup)
    (hPerm : files.Perm files')
    (f : Formula) :
    files.foldl (fun g file => g.withHint (hint file)) f =
      files'.foldl (fun g file => g.withHint (hint file))
        f := by
  apply hPerm.foldl_eq'
  intro file hFile other hOther g
  by_cases hSame : file = other
  · rw [hSame]
  · apply withHint_comm
    rw [hKind, hKind]
    intro hEq
    exact hSame
      (List.inj_on_of_nodup_map hNodup hFile hOther hEq)

------------------------------------------------------------
-- Later Additions
------------------------------------------------------------

/-
  All phases that there are stay as they are, and so
  does the order.
-/
structure KeepsHints
    (f f' : Formula) : Prop where
  initial :
      ∀ v phase,
        f.initialPhase v = .ok phase →
        f'.initialPhase v = .ok phase
  neural :
      ∀ v phase,
        f.neuralPhase v = .ok phase →
        f'.neuralPhase v = .ok phase
  order : f'.order = f.order

theorem keepsHints_self
    (f : Formula) :
    f.KeepsHints f :=
  ⟨fun _ _ h => h, fun _ _ h => h, rfl⟩

theorem KeepsHints.trans
    {f₁ f₂ f₃ : Formula}
    (h : f₁.KeepsHints f₂)
    (h' : f₂.KeepsHints f₃) :
    f₁.KeepsHints f₃ where
  initial :=
    fun v phase hPhase =>
      h'.initial v phase (h.initial v phase hPhase)
  neural :=
    fun v phase hPhase =>
      h'.neural v phase (h.neural v phase hPhase)
  order := h'.order.trans h.order

/-
  The phases of variables that are new stand behind those
  that there are.
-/
theorem keepsHints_of_grow
    {f' : Formula}
    {size : Nat}
    (hInitial : f'.initial = f.initial.grow size .unset)
    (hNeural : f'.neural = f.neural.grow size .unset)
    (hOrder : f'.order = f.order) :
    f.KeepsHints f' where
  initial := by
    intro v phase hPhase
    rw [initialPhase, hInitial]
    exact Table.get_grow size Phase.unset hPhase
  neural := by
    intro v phase hPhase
    rw [neuralPhase, hNeural]
    exact Table.get_grow size Phase.unset hPhase
  order := hOrder

theorem keepsHints_applyEvent
    {f' : Formula}
    {event : Event}
    (h : f.applyEvent event = .ok f') :
    f.KeepsHints f' := by
  rcases cases_of_applyEvent h with
    ⟨count, _, rfl⟩ | ⟨_, rfl⟩ | ⟨value, _, _, hAdd⟩
  · exact keepsHints_of_grow rfl rfl rfl
  · exact ⟨fun _ _ hPhase => hPhase,
      fun _ _ hPhase => hPhase, rfl⟩
  · rcases exists_of_addLiteral hAdd with
      ⟨v, t, l, _, _, rfl⟩
    exact keepsHints_of_grow rfl rfl rfl

/-
  Whatever is reserved and added, accepted or not, all
  hints are kept.
-/
theorem keepsHints_foldl_apply
    (f : Formula)
    (events : List Event) :
    f.KeepsHints
      ((events.map Operation.apply).foldl Formula.after
        f) := by
  induction events generalizing f with
  | nil => exact keepsHints_self f
  | cons event events ih =>
      rw [List.map_cons, List.foldl_cons]
      refine KeepsHints.trans ?_ (ih _)
      cases hPerform : f.perform (.apply event) with
      | ok f' =>
          rw [after_of_ok hPerform]
          exact keepsHints_applyEvent hPerform
      | error violation =>
          rw [after_of_error hPerform]
          exact keepsHints_self f

------------------------------------------------------------
-- Independence
------------------------------------------------------------

/-
  Scores change nothing but the initial phases, polarities
  nothing but the neural phases, and an unsat-order file
  nothing but the order. Read in any order, the three files
  lead to the same formula and have the same numbers of
  entries; and whatever is reserved and added later keeps
  all phases and the order.
-/
theorem hint_files_are_independent
    (operations : List Operation)
    (threshold threshold' : Float)
    (defaultPhase defaultPhase' : Phase)
    (scores polarities listed : Cursor) :
    ∃ (count : HintFile → Nat)
        (initial neural : Table 1 Phase)
        (order : Buffer 4 Variable),
      (run operations).readHint
          (.backbone ⟨.scores, threshold, defaultPhase⟩
            scores) =
        .ok
          (count
              (.backbone ⟨.scores, threshold, defaultPhase⟩
                scores),
            (run operations).withPhases .scores initial) ∧
      (run operations).readHint
          (.backbone
            ⟨.polarities, threshold', defaultPhase'⟩
            polarities) =
        .ok
          (count
              (.backbone
                ⟨.polarities, threshold', defaultPhase'⟩
                polarities),
            (run operations).withPhases .polarities
              neural) ∧
      (run operations).readHint (.unsatOrder listed) =
        .ok
          (count (.unsatOrder listed),
            (run operations).withHint (.order order)) ∧
      (∀ files : List HintFile,
        files.Perm
          [.backbone ⟨.scores, threshold, defaultPhase⟩
              scores,
            .backbone
              ⟨.polarities, threshold', defaultPhase'⟩
              polarities, .unsatOrder listed] →
        (run operations).readHints files =
          .ok
            (files.map count,
              (((run operations).withPhases .scores
                    initial).withPhases .polarities
                  neural).withHint (.order order))) ∧
      ∀ events : List Event,
        (run operations).KeepsHints
          (run
            (operations ++
              events.map Operation.apply)) := by
  rcases (holds_run operations).exists_readHints with
    ⟨hint, hKind, hRead, hReads⟩
  rcases Hint.eq_phases
      (hKind
        (.backbone ⟨.scores, threshold, defaultPhase⟩
          scores)) with
    ⟨initial, hInitial⟩
  rcases Hint.eq_phases
      (hKind
        (.backbone ⟨.polarities, threshold', defaultPhase'⟩
          polarities)) with
    ⟨neural, hNeural⟩
  rcases Hint.eq_order (hKind (.unsatOrder listed)) with
    ⟨order, hOrder⟩
  refine ⟨HintFile.count, initial, neural, order, ?_, ?_,
    ?_, ?_, ?_⟩
  · rw [hRead, hInitial]
    rfl
  · rw [hRead, hNeural]
    rfl
  · rw [hRead, hOrder]
  · intro files hFiles
    have hNodup : (files.map HintFile.kind).Nodup := by
      rw [(hFiles.map HintFile.kind).nodup_iff]
      simp [HintFile.kind]
    rw [hReads files hNodup,
      foldl_withHint_perm hKind hNodup hFiles]
    simp only [List.foldl_cons, List.foldl_nil, hInitial,
      hNeural, hOrder]
    rfl
  · intro events
    rw [run_append]
    exact keepsHints_foldl_apply (run operations) events

end Formula

end Dimacs
