import CompatRegistry.Registry.Replay
import CompatRegistry.Canon.Lengths
import CompatRegistry.UuidText

/-! What the explanations of a decision tell apart. The JSON explanation can be read back: it
has the identity, the pair, the outcome, the rule and the three lists of notes. The text
explanation cannot be taken apart, since its lines hold dimensions and notes as they are, but
it opens with the identity and ends with the digest. -/

namespace CompatRegistry

open Foundation Canon

/-! ### Names -/

theorem Uuid.toString_injective : Function.Injective Uuid.toString := by
  intro u v h
  have hplain : ∀ w : Uuid, Uuid.Plain (Uuid.hexOf w.bytes) :=
    fun w => ⟨by rw [Uuid.hexOf_length, w.size], Uuid.hexDigit_of_mem_hexOf⟩
  rw [Uuid.toString_eq_dashed, Uuid.toString_eq_dashed] at h
  have hdigits := congrArg Uuid.digits h
  rw [(Uuid.digits_dashed (hplain u)).1, (Uuid.digits_dashed (hplain v)).1] at hdigits
  have hbytes := congrArg Uuid.packPairs hdigits
  rw [Uuid.packPairs_hexOf, Uuid.packPairs_hexOf] at hbytes
  exact FixedBytes.ext (Except.ok.inj hbytes)

theorem Uuid.toString_length (u : Uuid) : u.toString.length = 36 := by
  have hlen : (Uuid.hexOf u.bytes).length = 32 := by rw [Uuid.hexOf_length, u.size]
  rw [Uuid.toString_eq_dashed]
  simp only [Uuid.dashed, List.length_append, List.length_cons, List.length_take, List.length_drop, hlen]
  norm_num

theorem outcomeName_eq_of_eq_ok {o o' : Enum8 Outcome} {name : Bytes} (h : outcomeName o = .ok name)
    (h' : outcomeName o' = .ok name) : o = o' := by
  cases o with
  | undeclared => cases h
  | declared o =>
    cases o' with
    | undeclared => cases h'
    | declared o' =>
      have hname := h.trans h'.symm
      have hdistinct : ∀ p q : Outcome, p ≠ q → outcomeName (.declared p) ≠ outcomeName (.declared q) := by
        intro p q hne
        cases p <;> cases q <;> first | exact absurd rfl hne | decide
      by_contra hne
      exact hdistinct o o' (fun heq => hne (congrArg _ heq)) hname

theorem Uuid.eq_of_isZero {u v : Uuid} (hu : u.isZero = true) (hv : v.isZero = true) : u = v := by
  have hbytes : ∀ w : Uuid, w.isZero = true → w.bytes = List.replicate 16 0 := by
    intro w hw
    refine List.eq_replicate_iff.mpr ⟨w.size, fun b hb => ?_⟩
    exact beq_iff_eq.mp (List.all_eq_true.mp hw b hb)
  apply FixedBytes.ext
  rw [hbytes u hu, hbytes v hv]

theorem map_string_injective : Function.Injective (List.map Json.Value.string) :=
  List.map_injective_iff.mpr fun _ _ h => Json.Value.string.inj h

theorem mirrorItems_map_str (l : List Bytes) : mirrorItems (l.map .str) = l.map .string := by
  induction l with
  | nil => rfl
  | cons s l ih => rw [List.map_cons, mirrorItems, mirror, ih, List.map_cons]

namespace CompatibilityDecision

/-! ### The JSON explanation -/

/-- Two decisions agree on what the JSON explanation shows. -/
structure ShownAlike (d d' : CompatibilityDecision) : Prop where
  decisionId : d.decisionId = d'.decisionId
  outcome : d.outcome = d'.outcome
  left : d.left = d'.left
  right : d.right = d'.right
  ruleId : d.ruleId = d'.ruleId
  missingEvidence : d.missingEvidence = d'.missingEvidence
  adaptations : d.adaptations = d'.adaptations
  provenance : d.provenance = d'.provenance

/-- The values of the two explanations, as objects. -/
theorem mirror_explainRecord (d : CompatibilityDecision) (outcome : Bytes) :
    mirror (d.explainRecord outcome) = .object ([(decimal 1, .string (ascii "decision")),
      (decimal 2, .string d.decisionId.toString), (decimal 3, .string outcome),
      (decimal 4, .string d.left.toString), (decimal 5, .string d.right.toString)] ++
      (if d.ruleId.isZero then [] else [(decimal 6, .string d.ruleId.toString)]) ++
      [(decimal 7, .array (d.missingEvidence.map .string)), (decimal 8, .array (d.adaptations.map .string)),
        (decimal 9, .array (d.provenance.map .string))]) := by
  unfold explainRecord ofEntries
  cases d.ruleId.isZero <;> simp [mirror, mirrorEntries, mirrorItems_map_str]

/-- The JSON explanations of two decisions are the same text exactly when the decisions agree
on everything shown, whatever bytes their notes hold. -/
theorem explainJson_eq_iff {d d' : CompatibilityDecision} {text text' : Bytes}
    (h : d.explainJson = .ok text) (h' : d'.explainJson = .ok text') :
    text = text' ↔ ShownAlike d d' := by
  obtain ⟨name, hname, htext⟩ := explainJson_jsonText h
  obtain ⟨name', hname', htext'⟩ := explainJson_jsonText h'
  constructor
  · rintro rfl
    have hvalue := Json.Text.unique htext htext'
    rw [mirror_explainRecord, mirror_explainRecord] at hvalue
    have hmembers := Json.Value.object.inj hvalue
    have hlength := congrArg List.length hmembers
    -- The member of the rule is left out when the identity of the rule is zero.
    have hrule : d.ruleId.isZero = d'.ruleId.isZero := by
      cases hzero : d.ruleId.isZero <;> cases hzero' : d'.ruleId.isZero <;> simp [hzero, hzero'] at hlength ⊢
    have hfirst := (List.append_inj' hmembers rfl).1
    have hlists := (List.append_inj' hmembers rfl).2
    have hhead := (List.append_inj hfirst rfl).1
    have hmember := (List.append_inj hfirst rfl).2
    simp only [List.cons.injEq, Prod.mk.injEq, true_and, Json.Value.string.injEq, and_true] at hhead
    simp only [List.cons.injEq, Prod.mk.injEq, true_and, Json.Value.array.injEq, and_true,
      map_string_injective.eq_iff] at hlists
    obtain ⟨hid, rfl, hleft, hright⟩ := hhead
    obtain ⟨hmissing, hadaptations, hprovenance⟩ := hlists
    refine ⟨Uuid.toString_injective hid, outcomeName_eq_of_eq_ok hname hname', Uuid.toString_injective hleft,
      Uuid.toString_injective hright, ?_, hmissing, hadaptations, hprovenance⟩
    cases hzero : d.ruleId.isZero with
    | true => exact Uuid.eq_of_isZero hzero (hrule ▸ hzero)
    | false =>
      rw [← hrule, hzero] at hmember
      simp only [Bool.false_eq_true, if_false, List.cons.injEq, Prod.mk.injEq, true_and,
        Json.Value.string.injEq, and_true] at hmember
      exact Uuid.toString_injective hmember
  · intro hshown
    have heq : name = name' := by
      rw [hshown.outcome, hname', Except.ok.injEq] at hname
      exact hname.symm
    have hrecord : d.explainRecord name = d'.explainRecord name' := by
      unfold explainRecord
      simp only [hshown.decisionId, heq, hshown.left, hshown.right, hshown.ruleId, hshown.missingEvidence,
        hshown.adaptations, hshown.provenance]
    rw [explainJson, hname, Result.ok_bind, Except.ok.injEq] at h
    rw [explainJson, hname', Result.ok_bind, Except.ok.injEq] at h'
    rw [← h, ← h', hrecord]

/-- A note that ends in a quotation mark, and one that ends in a backslash and one. -/
theorem explainJson_eq_iff_escaped : ∃ text text',
    ({ adaptations := ["a\""] } : CompatibilityDecision).explainJson = .ok text ∧
    ({ adaptations := ["a\\\""] } : CompatibilityDecision).explainJson = .ok text' ∧
    (text = text' ↔ ShownAlike { adaptations := ["a\""] } { adaptations := ["a\\\""] }) :=
  ⟨_, _, rfl, rfl, explainJson_eq_iff rfl rfl⟩

/-! ### The text explanation -/

/-- Two decisions agree on their identity and on everything that goes into their digests. -/
structure SaidAlike (d d' : CompatibilityDecision) : Prop where
  decisionId : d.decisionId = d'.decisionId
  left : d.left = d'.left
  right : d.right = d'.right
  outcome : d.outcome = d'.outcome
  ruleId : d.ruleId = d'.ruleId
  ruleGeneration : d.ruleGeneration = d'.ruleGeneration
  policyId : d.policyId = d'.policyId
  policyGeneration : d.policyGeneration = d'.policyGeneration
  registryGeneration : d.registryGeneration = d'.registryGeneration
  counterfactual : d.counterfactual = d'.counterfactual
  satisfied : d.satisfied = d'.satisfied
  failed : d.failed = d'.failed
  adaptations : d.adaptations = d'.adaptations
  missingEvidence : d.missingEvidence = d'.missingEvidence

theorem encConstraintItem_injective : Function.Injective encConstraintItem := by
  intro c c' h
  simp only [encConstraintItem, ofEntries, Canon.record.injEq, List.cons.injEq, Prod.mk.injEq, true_and,
    Canon.str.injEq, Canon.bool.injEq, and_true] at h
  obtain ⟨hdimension, hleft, hright, hsatisfied, hnote⟩ := h
  cases c
  cases c'
  simp_all

theorem map_str_injective : Function.Injective (List.map Canon.str) :=
  List.map_injective_iff.mpr fun _ _ h => Canon.str.inj h

theorem digestRecord_eq_iff {d d' : CompatibilityDecision} (hid : d.decisionId = d'.decisionId) :
    d.digestRecord = d'.digestRecord ↔ SaidAlike d d' := by
  unfold digestRecord ofEntries
  simp only [Canon.record.injEq, List.cons.injEq, Prod.mk.injEq, true_and, Canon.uuid.injEq,
    Canon.uint.injEq, Canon.bool.injEq, Canon.sequence.injEq, toUInt64_injective.eq_iff,
    (List.map_injective_iff.mpr encConstraintItem_injective).eq_iff, map_str_injective.eq_iff, and_true]
  constructor
  · rintro ⟨hleft, hright, houtcome, hrule, hgeneration, hpolicy, hpolicyGeneration, hregistry,
      hcounterfactual, hsatisfied, hfailed, hadaptations, hmissing⟩
    exact ⟨hid, hleft, hright, houtcome, hrule, hgeneration, hpolicy, hpolicyGeneration, hregistry,
      hcounterfactual, hsatisfied, hfailed, hadaptations, hmissing⟩
  · intro h
    exact ⟨h.left, h.right, h.outcome, h.ruleId, h.ruleGeneration, h.policyId, h.policyGeneration,
      h.registryGeneration, h.counterfactual, h.satisfied, h.failed, h.adaptations, h.missingEvidence⟩

theorem explainText_opens {d : CompatibilityDecision} {text : Bytes} (h : d.explainText = .ok text) :
    ∃ rest, text = ascii "Compatibility decision " ++ (d.decisionId.toString ++ rest) := by
  obtain ⟨name, -, h⟩ := Result.bind_eq_ok.mp h
  rw [Except.ok.injEq] at h
  exact ⟨_, by rw [← h]; simp only [line, List.flatten_cons, List.flatten_nil, List.append_nil,
    List.append_assoc]; rfl⟩

theorem explainText_closes {d : CompatibilityDecision} {text : Bytes} (h : d.explainText = .ok text) :
    ∃ front, text = front ++ d.digestHex := by
  obtain ⟨name, -, h⟩ := Result.bind_eq_ok.mp h
  rw [Except.ok.injEq] at h
  exact ⟨_, h.symm⟩

/-- Whatever the notes hold, equal texts have the same identity and the same digest. -/
theorem ids_eq_of_explainText {d d' : CompatibilityDecision} {text : Bytes} (h : d.explainText = .ok text)
    (h' : d'.explainText = .ok text) : d.decisionId = d'.decisionId ∧ d.digest = d'.digest := by
  obtain ⟨rest, hopens⟩ := explainText_opens h
  obtain ⟨rest', hopens'⟩ := explainText_opens h'
  obtain ⟨front, hcloses⟩ := explainText_closes h
  obtain ⟨front', hcloses'⟩ := explainText_closes h'
  constructor
  · have hrest := List.append_cancel_left (hopens.symm.trans hopens')
    have hlength : d.decisionId.toString.length = d'.decisionId.toString.length := by
      rw [Uuid.toString_length, Uuid.toString_length]
    exact Uuid.toString_injective (List.append_inj hrest hlength).1
  · have hlength : d.digestHex.length = d'.digestHex.length := by
      unfold digestHex
      rw [Sha256.hex_length, Sha256.hex_length]
    exact Sha256.hex_injective (List.append_inj' (hcloses.symm.trans hcloses') hlength).2

theorem explainText_congr {d d' : CompatibilityDecision} (h : SaidAlike d d') (hdigest : d.digest = d'.digest) :
    d.explainText = d'.explainText := by
  unfold explainText digestHex
  simp only [h.decisionId, h.left, h.right, h.outcome, h.ruleId, h.ruleGeneration, h.policyId,
    h.registryGeneration, h.counterfactual, h.satisfied, h.failed, h.adaptations, h.missingEvidence, hdigest]

end CompatibilityDecision

namespace Registry

namespace Evaluation

/-- An evaluation that comes to the rules explains its decision. -/
theorem explainText_decision {e : Evaluation} (he : ¬ e.Early) :
    e.decision.explainText = .ok e.decision.explanation := by
  cases evaluateLocked_returned e.returned with
  | absent missing decided =>
    refine absurd (fun l r hl hr => ?_) he
    simp [hl, hr] at missing
  | identical l r left_active right_active same decided =>
    refine absurd (fun l' r' hl hr => ?_) he
    rw [left_active, Option.some.injEq] at hl
    rw [right_active, Option.some.injEq] at hr
    rw [← hl, ← hr]
    exact same
  | ruled l r left_active right_active differ decided =>
    obtain ⟨evals, -, decided⟩ := Result.bind_eq_ok.mp decided
    obtain ⟨d, -, decided⟩ := Result.bind_eq_ok.mp decided
    rw [sealDecision_eq] at decided
    obtain ⟨text, htext, decided⟩ := Result.bind_eq_ok.mp decided
    rw [Except.ok.injEq] at decided
    rw [← decided]
    exact htext

/-- The explanations of two evaluations by rules are the same text exactly when the decisions
agree on their identity and on everything digested. -/
theorem explanation_eq_iff {e e' : Evaluation} (he : ¬ e.Early) (he' : ¬ e'.Early)
    (hfits : e.decision.digestRecord.Fits)
    (hapart : DigestsApart e.decision.digestRecord e'.decision.digestRecord) :
    e.decision.explanation = e'.decision.explanation ↔ e.decision.SaidAlike e'.decision := by
  have htext := explainText_decision he
  have htext' := explainText_decision he'
  constructor
  · intro heq
    rw [← heq] at htext'
    obtain ⟨hid, hdigest⟩ := CompatibilityDecision.ids_eq_of_explainText htext htext'
    rw [digest_eq, digest_eq] at hdigest
    have hrecord := eq_of_encoding_eq e.decision.digestRecord_wf e'.decision.digestRecord_wf hfits
      (hapart hdigest).symm
    exact (CompatibilityDecision.digestRecord_eq_iff hid).mp hrecord.symm
  · intro hsaid
    have hrecord := (CompatibilityDecision.digestRecord_eq_iff hsaid.decisionId).mpr hsaid
    have hdigest : e.decision.digest = e'.decision.digest := by rw [digest_eq, digest_eq, hrecord]
    rw [CompatibilityDecision.explainText_congr hsaid hdigest, htext', Except.ok.injEq] at htext
    exact htext.symm

/-- One pair in the two scopes, with no rule: the decisions differ in their identity only. -/
theorem explanation_eq_iff_scopes : ∃ e e' : Evaluation, e.requirement = false ∧ e'.requirement = true ∧
    (e.decision.explanation = e'.decision.explanation ↔ e.decision.SaidAlike e'.decision) := by
  obtain ⟨e, hstate, hleft, hright, hpair, hruled⟩ := exists_ruled_differ false
  obtain ⟨e', hstate', hleft', hright', hrequirement, hruled'⟩ := exists_ruled_differ true
  let told (requirement : Bool) : Option (Bytes × Bool) :=
    (evaluateLocked (runOps differOps {}) (uuidOf 1) (uuidOf 2) requirement).toOption.map
      fun d => (d.digestRecord.encoding, decide (d.digestRecord.element.length < 2 ^ 32))
  have htold : told false = told true := by decide +kernel
  have hshort : (told false).map Prod.snd = some true := by decide +kernel
  have hreturned := e.returned
  have hreturned' := e'.returned
  rw [hstate, hleft, hright, hpair] at hreturned
  rw [hstate', hleft', hright', hrequirement] at hreturned'
  simp only [told, hreturned, hreturned', Except.toOption, Option.map_some, Option.some.injEq, Prod.mk.injEq,
    decide_eq_true_eq] at htold hshort
  exact ⟨e, e', hpair, hrequirement,
    explanation_eq_iff hruled hruled' (fits_of_length _ hshort) fun _ => htold.1⟩

end Evaluation

end Registry

end CompatRegistry
