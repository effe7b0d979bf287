import Catapult.Catparser.UnnamedInlines
import Catapult.Lib.Paths
import Catapult.Lib.Stateful

/-!
# When the expansion of unnamed inlines ends

Structures that were expanded have no placeholders. So when a structure is expanded, only those that come later can
bring in new placeholders, again and again when they inline each other in a circle; the structure itself cannot, as it
has no placeholder while its fields are put together.
-/

namespace Catapult.Catparser
open Relation

def InlinesLater (models : Models) (later : List String) (a b : String) : Prop := Inlines models a b ∧ b ∈ later

/-- No structure leads to a circle of structures that come later. -/
def Grounded (typeDescriptors : List (TypeDescriptor ArrayAttributes)) : Prop :=
  ∀ done first later, structsWithUnnamedInlines typeDescriptors = done ++ first :: later →
    ∀ name, TransGen (InlinesLater (typeDescriptorMap typeDescriptors) later) first name →
      ¬TransGen (InlinesLater (typeDescriptorMap typeDescriptors) later) name name

/-- With the expanded structures or an `AstException`. -/
def Finishes (typeDescriptors : List (TypeDescriptor ArrayAttributes)) : Prop :=
  ∃ result, Ends (fun fuel => (expandUnnamedInlines fuel typeDescriptors).run) result ∧
    ∀ e, result = .error e → ∃ message, e = .ast message

section Depth
variable {α : Type} {links : α → List α} {n m : Nat} {a : α} {l : List α}

/-- There are fewer than `n` links behind one another. -/
def DepthLe (links : α → List α) : Nat → α → Prop
  | 0, _ => False
  | n + 1, a => ∀ b ∈ links a, DepthLe links n b

theorem DepthLe.mono (h : DepthLe links n a) (hle : n ≤ m) : DepthLe links m a := by
  induction n generalizing m a with
  | zero => exact h.elim
  | succ n ih =>
    obtain ⟨m, rfl⟩ : ∃ k, m = k + 1 := ⟨m - 1, by omega⟩
    exact fun b hb => ih (h b hb) (Nat.le_of_succ_le_succ hle)

theorem exists_depthLe (h : ∀ b ∈ l, ∃ n, DepthLe links n b) : ∃ n, ∀ b ∈ l, DepthLe links n b := by
  induction l with
  | nil => exact ⟨0, fun b hb => nomatch hb⟩
  | cons b l ih =>
    obtain ⟨hb, hl⟩ := List.forall_mem_cons.1 h
    obtain ⟨n, hn⟩ := hb
    obtain ⟨m, hm⟩ := ih hl
    refine ⟨max n m, List.forall_mem_cons.2 ⟨hn.mono (Nat.le_max_left n m), fun c hc => ?_⟩⟩
    exact (hm c hc).mono (Nat.le_max_right n m)

end Depth

section Rounds
variable {models : Models} {model model' : Struct ArrayAttributes} {name : String} {n fuel : Nat}

/-- The structures other than `first` that are inlined in a structure. -/
def inlinedBy (models : Models) (first name : String) : List String :=
  match models name with
  | some (.struct model) => (inlinedTypenames model.fields).filter fun t => t ≠ first
  | _ => []

theorem mem_inlinedBy {first s t : String} : t ∈ inlinedBy models first s ↔ Inlines models s t ∧ t ≠ first := by
  rw [inlinedBy, Inlines]
  split
  · case h_1 model hmodel => simp [hmodel]
  · case h_2 hmodel =>
    constructor
    · exact fun ht => nomatch ht
    · rintro ⟨⟨model, hother, -⟩, -⟩
      exact absurd hother (hmodel model)

theorem run_expandStruct_ok (hround : expandRound models model = .ok model') (h : hasUnnamedInlineField model = true) :
    (expandStruct models (fuel + 1) model).run = (expandStruct models fuel model').run := by
  rw [expandStruct, if_pos h, hround]

theorem run_expandStruct_error {e : AstError} (hround : expandRound models model = .error e)
    (h : hasUnnamedInlineField model = true) : (expandStruct models (fuel + 1) model).run = some (.error e) := by
  rw [expandStruct, if_pos h, hround]
  rfl

theorem run_expandStruct_of_eq_nil (h : hasUnnamedInlineField model = false) :
    (expandStruct models (fuel + 1) model).run = some (.ok model) := by
  rw [expandStruct, if_neg (by rw [h]; exact Bool.false_ne_true)]
  rfl

theorem ends_of_eq_nil (h : hasUnnamedInlineField model = false) :
    Ends (fun fuel => (expandStruct models fuel model).run) (.ok model) := by
  refine ⟨1, fun fuel hfuel => ?_⟩
  obtain ⟨fuel, rfl⟩ := Nat.exists_eq_add_of_le' hfuel
  exact run_expandStruct_of_eq_nil h

theorem exists_ends_expandStruct (hstructs : InlinesStructs models)
    (hmodel : ∀ t ∈ inlinedTypenames model.fields, t ≠ model.name → IsStruct models t)
    (hdepth : ∀ t ∈ inlinedTypenames model.fields, t ≠ model.name → DepthLe (inlinedBy models model.name) n t) :
    ∃ model', Ends (fun fuel => (expandStruct models fuel model).run) (.ok model') := by
  induction n generalizing model with
  | zero =>
    -- only the structure itself is left
    have hself : ∀ t ∈ inlinedTypenames model.fields, t = model.name := by
      intro t ht
      by_contra hne
      exact hdepth t ht hne
    cases hfield : hasUnnamedInlineField model with
    | false => exact ⟨model, ends_of_eq_nil hfield⟩
    | true =>
      obtain ⟨next, hround⟩ := exists_expandRound hmodel
      have hnil : hasUnnamedInlineField next = false := by
        rw [hasUnnamedInlineField_eq_false, List.eq_nil_iff_forall_not_mem]
        intro t ht
        obtain ⟨s, hs, hne, -⟩ := (extends_of_expandRound hround).2.1 t ht
        exact hne (hself s hs)
      exact ⟨next, (ends_of_eq_nil hnil).of_succ fun fuel => run_expandStruct_ok hround hfield⟩
  | succ n ih =>
    cases hfield : hasUnnamedInlineField model with
    | false => exact ⟨model, ends_of_eq_nil hfield⟩
    | true =>
      obtain ⟨next, hround⟩ := exists_expandRound hmodel
      obtain ⟨hname, hfrom, -, -⟩ := extends_of_expandRound hround
      have hnext : ∀ t ∈ inlinedTypenames next.fields, t ≠ next.name → IsStruct models t := by
        intro t ht _
        obtain ⟨s, -, -, hst⟩ := hfrom t ht
        exact hstructs s t hst
      obtain ⟨model', hends⟩ := ih hnext fun t ht hne => by
        obtain ⟨s, hs, hsne, hst⟩ := hfrom t ht
        rw [hname] at hne ⊢
        exact hdepth s hs hsne t (mem_inlinedBy.2 ⟨hst, hne⟩)
      exact ⟨model', hends.of_succ fun fuel => run_expandStruct_ok hround hfield⟩

theorem expandStruct_ne_ok (circle : Set String)
    (hcircle : ∀ s ∈ circle, s ≠ model.name ∧ ∃ t ∈ circle, Inlines models s t)
    (hmodel : ∃ s ∈ inlinedTypenames model.fields, s ∈ circle) (fuel : Nat) :
    (expandStruct models fuel model).run ≠ some (.ok model') := by
  induction fuel generalizing model with
  | zero => rintro ⟨⟩
  | succ fuel ih =>
    obtain ⟨s, hs, hmem⟩ := hmodel
    have hfield : hasUnnamedInlineField model = true := by
      rw [hasUnnamedInlineField, decide_eq_true_iff]
      exact List.ne_nil_of_mem hs
    cases hround : expandRound models model with
    | error e =>
      rw [run_expandStruct_error hround hfield]
      rintro ⟨⟩
    | ok next =>
      obtain ⟨hname, -, hbring, -⟩ := extends_of_expandRound hround
      rw [run_expandStruct_ok hround hfield]
      obtain ⟨hne, t, ht, hst⟩ := hcircle s hmem
      exact ih (hname ▸ hcircle) ⟨t, hbring s hs hne t hst, ht⟩

theorem of_expandStruct_eq_ok (h : (expandStruct models fuel model).run = some (.ok model')) :
    model'.name = model.name ∧ hasUnnamedInlineField model' = false := by
  induction fuel generalizing model with
  | zero => cases h
  | succ fuel ih =>
    cases hfield : hasUnnamedInlineField model with
    | false =>
      rw [run_expandStruct_of_eq_nil hfield] at h
      cases h
      exact ⟨rfl, hfield⟩
    | true =>
      cases hround : expandRound models model with
      | error e =>
        rw [run_expandStruct_error hround hfield] at h
        cases h
      | ok next =>
        rw [run_expandStruct_ok hround hfield] at h
        obtain ⟨hname, hnil⟩ := ih h
        exact ⟨hname.trans (extends_of_expandRound hround).1, hnil⟩

theorem isStruct_of_expandStruct_eq_ok (h : (expandStruct models fuel model).run = some (.ok model')) {t : String}
    (ht : t ∈ inlinedTypenames model.fields) (hne : t ≠ model.name) : IsStruct models t := by
  have hfield : hasUnnamedInlineField model = true := by
    rw [hasUnnamedInlineField, decide_eq_true_iff]
    exact List.ne_nil_of_mem ht
  cases fuel with
  | zero => cases h
  | succ fuel =>
    cases hround : expandRound models model with
    | error e =>
      rw [run_expandStruct_error hround hfield] at h
      cases h
    | ok next => exact (extends_of_expandRound hround).2.2.2 t ht hne

/-- Known types lead to no `AstException`. -/
def InlinesKnown (models : Models) : Prop := ∀ a b, Inlines models a b → models b ≠ none

theorem error_of_foldlM {members : List (StructMember ArrayAttributes)} {e : AstError}
    (h : members.foldlM (expandMember models) model = .error e)
    (hknown : ∀ t ∈ inlinedTypenames members, models t ≠ none) : e = .attribute "disposition" := by
  induction members generalizing model with
  | nil => cases h
  | cons member members ih =>
    have hsplit := inlinedTypenames_append [member] members
    rw [List.singleton_append] at hsplit
    rw [hsplit] at hknown
    rw [List.foldlM_cons] at h
    cases hmember : expandMember models model member with
    | ok next =>
      rw [hmember] at h
      exact ih h fun t ht => hknown t (List.mem_append_right _ ht)
    | error e' =>
      rw [hmember] at h
      cases h
      cases member with
      | field field => cases hmember
      | inlinePlaceholder inlinedTypename =>
        have hne := hknown inlinedTypename (List.mem_append_left _ (List.mem_singleton_self _))
        rw [expandMember, lookupModel] at hmember
        split at hmember
        · case h_1 hnone =>
          split at hnone
          · cases hnone
          · exact absurd hnone hne
        · cases hmember
        · cases hmember
          rfl

theorem error_of_expandStruct {e : AstError} (hmodels : InlinesKnown models)
    (h : (expandStruct models fuel model).run = some (.error e))
    (hknown : ∀ t ∈ inlinedTypenames model.fields, models t ≠ none) : e = .attribute "disposition" := by
  induction fuel generalizing model with
  | zero => cases h
  | succ fuel ih =>
    cases hfield : hasUnnamedInlineField model with
    | false =>
      rw [run_expandStruct_of_eq_nil hfield] at h
      cases h
    | true =>
      cases hround : expandRound models model with
      | error e' =>
        rw [run_expandStruct_error hround hfield] at h
        cases h
        exact error_of_foldlM hround hknown
      | ok next =>
        rw [run_expandStruct_ok hround hfield] at h
        refine ih h fun t ht => ?_
        obtain ⟨s, -, -, hst⟩ := (extends_of_expandRound hround).2.1 t ht
        exact hmodels s t hst

end Rounds

section Runs
variable {typeDescriptors : List (TypeDescriptor ArrayAttributes)} {models models' : Models}
  {done later : List String} {first a b t : String} {fuel : Nat}

/-- The structures with the names in `done` are expanded, the other models are as they were. -/
structure Progress (typeDescriptors : List (TypeDescriptor ArrayAttributes)) (done : List String) (models : Models) :
    Prop where
  expanded : ∀ name ∈ done, ∃ model, models name = some (.struct model) ∧ hasUnnamedInlineField model = false
  kept : ∀ name, name ∉ done → models name = typeDescriptorMap typeDescriptors name

theorem Progress.nil : Progress typeDescriptors [] (typeDescriptorMap typeDescriptors) :=
  ⟨fun _ hname => (nomatch hname), fun _ _ => rfl⟩

theorem Progress.inlines_iff (h : Progress typeDescriptors done models) :
    Inlines models a b ↔ a ∉ done ∧ Inlines (typeDescriptorMap typeDescriptors) a b := by
  constructor
  · rintro ⟨model, hmodel, hmem⟩
    have hnot : a ∉ done := by
      intro hdone
      obtain ⟨other, hother, hnone⟩ := h.expanded a hdone
      rw [hmodel] at hother
      cases hother
      rw [hasUnnamedInlineField_eq_false] at hnone
      rw [hnone] at hmem
      cases hmem
    exact ⟨hnot, model, by rw [← h.kept a hnot, hmodel], hmem⟩
  · rintro ⟨hnot, model, hmodel, hmem⟩
    exact ⟨model, by rw [h.kept a hnot, hmodel], hmem⟩

theorem Progress.isStruct (h : Progress typeDescriptors done models)
    (ht : IsStruct (typeDescriptorMap typeDescriptors) t) : IsStruct models t := by
  by_cases hdone : t ∈ done
  · obtain ⟨model, hmodel, -⟩ := h.expanded t hdone
    exact ⟨model, hmodel⟩
  · rwa [IsStruct, h.kept t hdone]

theorem Progress.inlinesStructs (h : Progress typeDescriptors done models)
    (hstructs : InlinesStructs (typeDescriptorMap typeDescriptors)) : InlinesStructs models :=
  fun a b hab => h.isStruct (hstructs a b (h.inlines_iff.1 hab).2)

theorem Progress.inlinesKnown (h : Progress typeDescriptors done models)
    (hknown : InlinesKnown (typeDescriptorMap typeDescriptors)) : InlinesKnown models := by
  intro a b hab
  by_cases hdone : b ∈ done
  · obtain ⟨model, hmodel, -⟩ := h.expanded b hdone
    rw [hmodel]
    exact Option.some_ne_none _
  · rw [h.kept b hdone]
    exact hknown a b (h.inlines_iff.1 hab).2

theorem Progress.update (h : Progress typeDescriptors done models) {model : Struct ArrayAttributes}
    (hmodel : hasUnnamedInlineField model = false) :
    Progress typeDescriptors (done ++ [first]) (Function.update models first (some (.struct model))) := by
  constructor
  · intro name hname
    by_cases heq : name = first
    · rw [heq, Function.update_self]
      exact ⟨model, rfl, hmodel⟩
    · rw [Function.update_of_ne heq]
      refine h.expanded name ((List.mem_append.1 hname).resolve_right fun hmem => heq (List.mem_singleton.1 hmem))
  · intro name hname
    rw [List.mem_append, List.mem_singleton, not_or] at hname
    rw [Function.update_of_ne hname.2, h.kept name hname.1]

theorem nodup_structsWithUnnamedInlines : (structsWithUnnamedInlines typeDescriptors).Nodup :=
  (nodup_modelNames typeDescriptors).filter _

theorem mem_structsWithUnnamedInlines :
    a ∈ structsWithUnnamedInlines typeDescriptors ↔ ∃ b, Inlines (typeDescriptorMap typeDescriptors) a b := by
  rw [structsWithUnnamedInlines, List.mem_filter]
  constructor
  · rintro ⟨-, hfilter⟩
    split at hfilter
    · case h_1 model hmodel =>
      rw [hasUnnamedInlineField, decide_eq_true_iff] at hfilter
      obtain ⟨b, hb⟩ := List.exists_mem_of_ne_nil _ hfilter
      exact ⟨b, model, hmodel, hb⟩
    · cases hfilter
  · rintro ⟨b, model, hmodel, hb⟩
    refine ⟨mem_modelNames_of_typeDescriptorMap hmodel, ?_⟩
    rw [hmodel]
    simp only [hasUnnamedInlineField, decide_eq_true_eq]
    exact List.ne_nil_of_mem hb

structure Next (typeDescriptors : List (TypeDescriptor ArrayAttributes)) (done : List String) (first : String)
    (later : List String) (models : Models) : Prop extends Progress typeDescriptors done models where
  split : structsWithUnnamedInlines typeDescriptors = done ++ first :: later

namespace Next
variable (h : Next typeDescriptors done first later models)
include h

theorem nodup : (done ++ first :: later).Nodup := h.split ▸ nodup_structsWithUnnamedInlines

theorem first_not_mem_done : first ∉ done := fun hmem =>
  List.disjoint_of_nodup_append h.nodup hmem List.mem_cons_self

theorem first_not_mem_later : first ∉ later := (List.nodup_cons.1 (List.nodup_append.1 h.nodup).2.1).1

theorem not_mem_done (ht : t ∈ later) : t ∉ done := fun hmem =>
  List.disjoint_of_nodup_append h.nodup hmem (List.mem_cons_of_mem _ ht)

theorem exists_model : ∃ model, models first = some (.struct model) ∧
    typeDescriptorMap typeDescriptors first = some (.struct model) ∧ model.name = first := by
  have hmem : first ∈ structsWithUnnamedInlines typeDescriptors := by
    rw [h.split]
    exact List.mem_append_right _ List.mem_cons_self
  obtain ⟨b, model, hmodel, -⟩ := mem_structsWithUnnamedInlines.1 hmem
  exact ⟨model, by rw [h.kept first h.first_not_mem_done, hmodel], hmodel, name_of_typeDescriptorMap hmodel⟩

theorem isStruct_iff : IsStruct models t ↔ IsStruct (typeDescriptorMap typeDescriptors) t := by
  refine ⟨fun ht => ?_, h.isStruct⟩
  by_cases hdone : t ∈ done
  · have hmem : t ∈ structsWithUnnamedInlines typeDescriptors := by
      rw [h.split]
      exact List.mem_append_left _ hdone
    obtain ⟨b, model, hmodel, -⟩ := mem_structsWithUnnamedInlines.1 hmem
    exact ⟨model, hmodel⟩
  · rwa [IsStruct, h.kept t hdone] at ht

theorem inlines_of_mem_later (ht : t ∈ later) :
    Inlines models t b ↔ Inlines (typeDescriptorMap typeDescriptors) t b := by
  rw [h.inlines_iff]
  exact and_iff_right (h.not_mem_done ht)

theorem inlinedBy_eq_nil (hne : t ≠ first) (hlater : t ∉ later) : inlinedBy models first t = [] := by
  rw [List.eq_nil_iff_forall_not_mem]
  intro b hb
  obtain ⟨hdone, hinlines⟩ := h.inlines_iff.1 (mem_inlinedBy.1 hb).1
  have hmem := mem_structsWithUnnamedInlines.2 ⟨b, hinlines⟩
  rw [h.split, List.mem_append, List.mem_cons] at hmem
  rcases hmem with hmem | hmem | hmem
  · exact hdone hmem
  · exact hne hmem
  · exact hlater hmem

omit h in
theorem mem_later_of_transGen (hpath : TransGen (InlinesLater models later) a b) : b ∈ later := by
  rcases hpath with ⟨hstep⟩ | ⟨-, hstep⟩
  · exact hstep.2
  · exact hstep.2

theorem exists_depthLe_of_transGen (hgrounded : Grounded typeDescriptors)
    (hpath : TransGen (InlinesLater (typeDescriptorMap typeDescriptors) later) first t) :
    ∃ n, DepthLe (inlinedBy models first) n t := by
  have hwf : WellFounded fun b a =>
      TransGen (InlinesLater (typeDescriptorMap typeDescriptors) later) first a ∧
        InlinesLater (typeDescriptorMap typeDescriptors) later a b := by
    refine wellFounded_of_not_transGen ((List.finite_toSet later).subset ?_) fun a hcycle => ?_
    · rintro a ⟨b, hfirst, -⟩
      exact mem_later_of_transGen hfirst
    · have hfirst : TransGen (InlinesLater (typeDescriptorMap typeDescriptors) later) first a := by
        rcases TransGen.head'_iff.1 hcycle with ⟨b, hstep, -⟩
        exact hstep.1
      exact hgrounded done first later h.split a hfirst (hcycle.lift id fun _ _ hstep => hstep.2)
  induction t using hwf.induction with
  | _ t ih =>
    have hlinks : ∀ b ∈ inlinedBy models first t, ∃ n, DepthLe (inlinedBy models first) n b := by
      intro b hb
      obtain ⟨hinlines, hne⟩ := mem_inlinedBy.1 hb
      by_cases hlater : b ∈ later
      · have hstep : InlinesLater (typeDescriptorMap typeDescriptors) later t b :=
          ⟨(h.inlines_iff.1 hinlines).2, hlater⟩
        exact ih b ⟨hpath, hstep⟩ (hpath.tail hstep)
      · refine ⟨1, fun c hc => ?_⟩
        rw [h.inlinedBy_eq_nil hne hlater] at hc
        cases hc
    obtain ⟨n, hn⟩ := exists_depthLe hlinks
    exact ⟨n + 1, hn⟩

theorem exists_ends (hgrounded : Grounded typeDescriptors)
    (hstructs : InlinesStructs (typeDescriptorMap typeDescriptors))
    {model : Struct ArrayAttributes} (hmodel : models first = some (.struct model)) (hname : model.name = first) :
    ∃ model', Ends (fun fuel => (expandStruct models fuel model).run) (.ok model') := by
  have hinlines : ∀ t ∈ inlinedTypenames model.fields, Inlines models first t := fun t ht => ⟨model, hmodel, ht⟩
  have hdepth : ∀ t ∈ (inlinedTypenames model.fields).filter (· ≠ first),
      ∃ n, DepthLe (inlinedBy models first) n t := by
    intro t ht
    obtain ⟨ht, hne⟩ := List.mem_filter.1 ht
    by_cases hlater : t ∈ later
    · exact h.exists_depthLe_of_transGen hgrounded (.single ⟨(h.inlines_iff.1 (hinlines t ht)).2, hlater⟩)
    · refine ⟨1, fun c hc => ?_⟩
      rw [h.inlinedBy_eq_nil (of_decide_eq_true hne) hlater] at hc
      cases hc
  obtain ⟨n, hn⟩ := exists_depthLe hdepth
  refine exists_ends_expandStruct (n := n) (h.inlinesStructs hstructs) (fun t ht _ => ?_) fun t ht hne => ?_
  · exact h.inlinesStructs hstructs first t (hinlines t ht)
  · rw [hname] at hne ⊢
    exact hn t (List.mem_filter.2 ⟨ht, decide_eq_true hne⟩)

theorem not_transGen_of_eq_ok {model model' : Struct ArrayAttributes} (hmodel : models first = some (.struct model))
    (hname : model.name = first) (hok : (expandStruct models fuel model).run = some (.ok model'))
    (hfirst : TransGen (InlinesLater (typeDescriptorMap typeDescriptors) later) first t) :
    ¬TransGen (InlinesLater (typeDescriptorMap typeDescriptors) later) t t := by
  intro hcycle
  have hstep : ∀ a, TransGen (InlinesLater (typeDescriptorMap typeDescriptors) later) a t →
      ∃ b, (b ∈ later ∧ TransGen (InlinesLater (typeDescriptorMap typeDescriptors) later) b t) ∧
        Inlines (typeDescriptorMap typeDescriptors) a b := by
    intro a ha
    obtain ⟨b, hab, hbt⟩ := TransGen.head'_iff.1 ha
    rcases reflTransGen_iff_eq_or_transGen.1 hbt with rfl | hbt
    · exact ⟨t, ⟨hab.2, hcycle⟩, hab.1⟩
    · exact ⟨b, ⟨hab.2, hbt⟩, hab.1⟩
  refine expandStruct_ne_ok {b | b ∈ later ∧
    TransGen (InlinesLater (typeDescriptorMap typeDescriptors) later) b t} ?_ ?_ fuel hok
  · rintro s ⟨hs, hst⟩
    obtain ⟨b, hb, hsb⟩ := hstep s hst
    refine ⟨?_, b, hb, (h.inlines_of_mem_later hs).2 hsb⟩
    rintro rfl
    exact h.first_not_mem_later (hname ▸ hs)
  · obtain ⟨b, hb, hinlines⟩ := hstep first hfirst
    obtain ⟨other, hother, hmem⟩ := (h.inlines_iff.2 ⟨h.first_not_mem_done, hinlines⟩)
    rw [hmodel] at hother
    cases hother
    exact ⟨b, hmem, hb⟩

end Next

theorem run_expandStructs_cons {names : List String} {model : Struct ArrayAttributes}
    (hmodel : models first = some (.struct model)) :
    (expandStructs fuel (first :: names) models).run =
      (expandStruct models fuel model).run >>= fun result => match result with
        | .ok model => (expandStructs fuel names (Function.update models first (some (.struct model)))).run
        | .error e => some (.error e) := by
  rw [expandStructs, hmodel]
  simp only [ExceptT.run_bind]
  congr 1
  funext result
  cases result <;> rfl

theorem exists_ends_expandStructs (hgrounded : Grounded typeDescriptors)
    (hstructs : InlinesStructs (typeDescriptorMap typeDescriptors)) {names : List String}
    (hsplit : structsWithUnnamedInlines typeDescriptors = done ++ names) (h : Progress typeDescriptors done models) :
    ∃ models', Ends (fun fuel => (expandStructs fuel names models).run) (.ok models') := by
  induction names generalizing done models with
  | nil => exact ⟨models, .of_forall fun _ => rfl⟩
  | cons first later ih =>
    have hnext : Next typeDescriptors done first later models := ⟨h, hsplit⟩
    obtain ⟨model, hmodel, -, hname⟩ := hnext.exists_model
    obtain ⟨model', hends⟩ := hnext.exists_ends hgrounded hstructs hmodel hname
    have hfalse : hasUnnamedInlineField model' = false := by
      obtain ⟨enough, hends⟩ := hends
      exact (of_expandStruct_eq_ok (hends enough (Nat.le_refl _))).2
    obtain ⟨models', hrest⟩ := ih (by rw [hsplit, List.append_assoc]; rfl) (h.update hfalse)
    refine ⟨models', ?_⟩
    simp only [run_expandStructs_cons hmodel]
    exact hends.bind hrest

theorem exists_of_expandStructs_cons_eq_ok {names : List String} {model : Struct ArrayAttributes}
    (hmodel : models first = some (.struct model))
    (hok : (expandStructs fuel (first :: names) models).run = some (.ok models')) :
    ∃ model', (expandStruct models fuel model).run = some (.ok model') ∧
      (expandStructs fuel names (Function.update models first (some (.struct model')))).run = some (.ok models') := by
  rw [run_expandStructs_cons hmodel] at hok
  cases hrun : (expandStruct models fuel model).run with
  | none =>
    rw [hrun] at hok
    cases hok
  | some result =>
    rw [hrun] at hok
    cases result with
    | error e => cases hok
    | ok model' => exact ⟨model', rfl, hok⟩

theorem expandStructs_of_not_mem {names : List String} (hnot : a ∉ names)
    (hok : (expandStructs fuel names models).run = some (.ok models')) : models' a = models a := by
  induction names generalizing models with
  | nil =>
    cases hok
    rfl
  | cons first names ih =>
    rw [List.mem_cons, not_or] at hnot
    by_cases hstruct : IsStruct models first
    · obtain ⟨model, hmodel⟩ := hstruct
      obtain ⟨model', -, hrest⟩ := exists_of_expandStructs_cons_eq_ok hmodel hok
      rw [ih hnot.2 hrest, Function.update_of_ne hnot.1]
    · rw [expandStructs] at hok
      split at hok
      · case h_1 model hmodel => exact absurd ⟨model, hmodel⟩ hstruct
      · exact ih hnot.2 hok

theorem exists_next_of_expandStructs {names pre later : List String}
    (hsplit : structsWithUnnamedInlines typeDescriptors = done ++ names) (h : Progress typeDescriptors done models)
    (hok : (expandStructs fuel names models).run = some (.ok models')) (hnames : names = pre ++ first :: later) :
    ∃ current, Next typeDescriptors (done ++ pre) first later current ∧
      (expandStructs fuel (first :: later) current).run = some (.ok models') := by
  induction names generalizing done models pre with
  | nil => cases pre <;> cases hnames
  | cons next names ih =>
    cases pre with
    | nil =>
      cases hnames
      exact ⟨models, by rw [List.append_nil]; exact ⟨h, hsplit⟩, hok⟩
    | cons other pre =>
      cases hnames
      have hnext : Next typeDescriptors done next (pre ++ first :: later) models := ⟨h, hsplit⟩
      obtain ⟨model, hmodel, -, -⟩ := hnext.exists_model
      obtain ⟨model', hstruct, hrest⟩ := exists_of_expandStructs_cons_eq_ok hmodel hok
      have hsplit' : structsWithUnnamedInlines typeDescriptors = (done ++ [next]) ++ (pre ++ first :: later) := by
        rw [hsplit, List.append_assoc]
        rfl
      obtain ⟨current, hcurrent, hrun⟩ := ih hsplit' (h.update (of_expandStruct_eq_ok hstruct).2) hrest rfl
      rw [List.append_assoc] at hcurrent
      exact ⟨current, hcurrent, hrun⟩

theorem exists_expandStruct_of_expandUnnamedInlines
    (hrun : (expandUnnamedInlines fuel typeDescriptors).run = some (.ok models'))
    (hnames : structsWithUnnamedInlines typeDescriptors = done ++ first :: later) :
    ∃ current model model', Next typeDescriptors done first later current ∧ current first = some (.struct model) ∧
      model.name = first ∧ (expandStruct current fuel model).run = some (.ok model') ∧
      (∀ a, a ∉ later → models' a = Function.update current first (some (.struct model')) a) := by
  obtain ⟨current, hnext, hrest⟩ := exists_next_of_expandStructs (List.nil_append _).symm .nil hrun hnames
  obtain ⟨model, hmodel, -, hname⟩ := hnext.exists_model
  obtain ⟨model', hstruct, hafter⟩ := exists_of_expandStructs_cons_eq_ok hmodel hrest
  exact ⟨current, model, model', hnext, hmodel, hname, hstruct, fun a ha => expandStructs_of_not_mem ha hafter⟩

theorem error_of_expandStructs {names : List String} {e : AstError}
    (hknown : InlinesKnown (typeDescriptorMap typeDescriptors))
    (hsplit : structsWithUnnamedInlines typeDescriptors = done ++ names) (h : Progress typeDescriptors done models)
    (herror : (expandStructs fuel names models).run = some (.error e)) : e = .attribute "disposition" := by
  induction names generalizing done models with
  | nil => cases herror
  | cons next names ih =>
    have hnext : Next typeDescriptors done next names models := ⟨h, hsplit⟩
    obtain ⟨model, hmodel, -, -⟩ := hnext.exists_model
    rw [run_expandStructs_cons hmodel] at herror
    cases hrun : (expandStruct models fuel model).run with
    | none =>
      rw [hrun] at herror
      cases herror
    | some result =>
      rw [hrun] at herror
      cases result with
      | error e' =>
        cases herror
        exact error_of_expandStruct (h.inlinesKnown hknown) hrun fun t ht =>
          h.inlinesKnown hknown next t ⟨model, hmodel, ht⟩
      | ok model' =>
        have hsplit' : structsWithUnnamedInlines typeDescriptors = (done ++ [next]) ++ names := by
          rw [hsplit, List.append_assoc]
          rfl
        exact ih hsplit' (h.update (of_expandStruct_eq_ok hrun).2) herror

end Runs

section Validated
variable {typeDescriptors : List (TypeDescriptor ArrayAttributes)} {builtins : Builtins}

open Fallible

theorem eq_nil_of_mapM {α : Type} {f : α → Validation} {l : List α} {errors : List (List ErrorDescriptor)}
    (h : l.mapM f = .ok errors) (hnil : errors.flatten = []) : ∀ a ∈ l, f a = .ok [] := by
  intro a ha
  obtain ⟨error, hmem, herror⟩ := of_mapM_eq_ok h a ha
  rw [herror, List.flatten_eq_nil_iff.1 hnil error hmem]

theorem inlinesKnown_of_validate (hvalid : validate builtins typeDescriptors = .ok []) :
    InlinesKnown (typeDescriptorMap typeDescriptors) := by
  rintro a b ⟨model, hmodel, hb⟩
  obtain ⟨errors, herrors, hnil⟩ := bind_eq_ok hvalid
  have hmem : TypeDescriptor.struct model ∈
      (modelNames typeDescriptors).filterMap (typeDescriptorMap typeDescriptors) :=
    List.mem_filterMap.2 ⟨a, mem_modelNames_of_typeDescriptorMap hmodel, hmodel⟩
  have hstruct := eq_nil_of_mapM herrors (Except.ok.inj hnil) _ hmem
  obtain ⟨memberErrors, hmembers, hnil⟩ := bind_eq_ok hstruct
  have hmemberNil := (List.append_eq_nil_iff.1 (Except.ok.inj hnil)).2
  obtain ⟨member, hmember, hplaceholder⟩ := List.mem_filterMap.1 hb
  have hvalidMember := eq_nil_of_mapM hmembers hmemberNil member hmember
  cases member with
  | field field => cases hplaceholder
  | inlinePlaceholder inlinedTypename =>
    cases hplaceholder
    intro hnone
    simp [validateMember, validateUnnamedInline, isKnownType, hnone] at hvalidMember
    cases hvalidMember

theorem Finishes.exists_eq_ok (h : Finishes typeDescriptors)
    (hvalid : validate builtins typeDescriptors = .ok []) :
    ∃ fuel models', (expandUnnamedInlines fuel typeDescriptors).run = some (.ok models') := by
  obtain ⟨result, ⟨enough, hends⟩, hresult⟩ := h
  have hrun := hends enough (Nat.le_refl _)
  cases result with
  | error e =>
    obtain ⟨message, hmessage⟩ := hresult e rfl
    rw [error_of_expandStructs (inlinesKnown_of_validate hvalid) (List.nil_append _).symm .nil hrun] at hmessage
    cases hmessage
  | ok models' => exact ⟨enough, models', hrun⟩

theorem grounded_of_finishes (hvalid : validate builtins typeDescriptors = .ok []) (h : Finishes typeDescriptors) :
    Grounded typeDescriptors := by
  obtain ⟨fuel, models', hrun⟩ := h.exists_eq_ok hvalid
  intro done first later hnames name hfirst
  obtain ⟨current, model, model', hnext, hmodel, hname, hok, -⟩ :=
    exists_expandStruct_of_expandUnnamedInlines hrun hnames
  exact hnext.not_transGen_of_eq_ok hmodel hname hok hfirst

theorem inlinesStructs_of_expandUnnamedInlines {fuel : Nat} {models' : Models}
    (hrun : (expandUnnamedInlines fuel typeDescriptors).run = some (.ok models')) :
    InlinesStructs (typeDescriptorMap typeDescriptors) := by
  rintro a b ⟨model, hmodel, hb⟩
  have hmem := mem_structsWithUnnamedInlines.2 ⟨b, model, hmodel, hb⟩
  obtain ⟨pre, later, hnames⟩ := List.append_of_mem hmem
  obtain ⟨current, model, model', hnext, hcurrent, hname, hok, -⟩ :=
    exists_expandStruct_of_expandUnnamedInlines hrun hnames
  rw [hnext.kept a hnext.first_not_mem_done, hmodel] at hcurrent
  cases hcurrent
  by_cases hself : b = a
  · exact ⟨_, hself ▸ hmodel⟩
  · exact hnext.isStruct_iff.1 (isStruct_of_expandStruct_eq_ok hok hb (hname ▸ hself))

/-- The expansion finishes exactly when nothing but structures is inlined, and no structure leads to a circle of later
ones. -/
theorem finishes_iff (hvalid : validate builtins typeDescriptors = .ok []) :
    Finishes typeDescriptors ↔ InlinesStructs (typeDescriptorMap typeDescriptors) ∧ Grounded typeDescriptors := by
  constructor
  · intro h
    obtain ⟨fuel, models', hrun⟩ := h.exists_eq_ok hvalid
    exact ⟨inlinesStructs_of_expandUnnamedInlines hrun, grounded_of_finishes hvalid h⟩
  · rintro ⟨hstructs, hgrounded⟩
    obtain ⟨models', hends⟩ := exists_ends_expandStructs hgrounded hstructs (List.nil_append _).symm .nil
    exact ⟨.ok models', hends, fun e he => nomatch he⟩

end Validated

def sampleStruct (name : String) (inlined : List String) : TypeDescriptor ArrayAttributes :=
  .struct ⟨name, none, inlined.map .inlinePlaceholder, none, none⟩

def sampleBuiltins : Builtins := ⟨fun _ => false, fun _ => false⟩

theorem finishes_sample : Finishes [sampleStruct "Alpha" ["Beta"], sampleStruct "Beta" []] := by
  have hnames : structsWithUnnamedInlines [sampleStruct "Alpha" ["Beta"], sampleStruct "Beta" []] = ["Alpha"] := by
    decide
  have hvalid : validate sampleBuiltins [sampleStruct "Alpha" ["Beta"], sampleStruct "Beta" []] = .ok [] := by decide
  refine (finishes_iff hvalid).2 ⟨?_, ?_⟩
  · rintro a b ⟨model, hmodel, hb⟩
    have hmem := mem_structsWithUnnamedInlines.2 ⟨b, model, hmodel, hb⟩
    rw [hnames, List.mem_singleton] at hmem
    subst hmem
    cases hmodel
    rw [List.mem_singleton.1 hb]
    exact ⟨_, rfl⟩
  · intro done first later hsplit name hfirst
    rw [hnames] at hsplit
    obtain rfl : later = [] := by
      cases done with
      | nil => exact (List.cons.inj hsplit).2.symm
      | cons other done => cases done <;> cases (List.cons.inj hsplit).2
    exact nomatch Next.mem_later_of_transGen hfirst

/-- A structure that is inlined before it is expanded inlines itself. -/
theorem not_finishes_sample :
    ∃ typeDescriptors, validate sampleBuiltins typeDescriptors = .ok [] ∧ ¬Finishes typeDescriptors := by
  have hvalid : validate sampleBuiltins [sampleStruct "Alpha" ["Beta"], sampleStruct "Beta" ["Beta"]] = .ok [] := by
    decide
  refine ⟨_, hvalid, fun h => ?_⟩
  have hstep : ∀ a ∈ ["Alpha", "Beta"], InlinesLater
      (typeDescriptorMap [sampleStruct "Alpha" ["Beta"], sampleStruct "Beta" ["Beta"]]) ["Beta"] a "Beta" := by
    intro a ha
    refine ⟨?_, List.mem_singleton_self _⟩
    rcases List.mem_cons.1 ha with rfl | ha
    · exact ⟨_, rfl, List.mem_singleton_self _⟩
    · rw [List.mem_singleton.1 ha]
      exact ⟨_, rfl, List.mem_singleton_self _⟩
  exact grounded_of_finishes hvalid h [] "Alpha" ["Beta"] (by decide) "Beta" (.single (hstep _ (by decide)))
    (.single (hstep _ (by decide)))

end Catapult.Catparser
