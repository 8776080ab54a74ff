import Webfang.Http.WafEngine

/-!
# The completeness of the inspection

What is reported of a body decides on it, and an occurrence that is cut by one that is not telling
is lost.
-/

namespace Webfang.Waf

open Http (InspectionContext)
open Occurrences (Match Occurs Seen)

/-! ## What is promised -/

/-- A status at which a fingerprint in the body blocks. -/
def Correlated (ctx : InspectionContext) : Prop := ctx.status = some 403 ∨ ctx.status = some 429

/-- A challenge; and at a correlated status what passes its filter. -/
def Telling (body : List UInt8) (ctx : InspectionContext) (m : Match Signature) : Prop :=
  m.pattern.tier = .challenge ∨ Correlated ctx ∧ passesBoundaryFilter body m = true

/-- A body is blocked whenever something telling occurs in it. -/
def ScanComplete (highEntropy : List UInt8 → Bool) (body : List UInt8) (ctx : InspectionContext) :
    Prop :=
  (∃ m, Occurs Signature.word wafBodySignatures body m ∧ Telling body ctx m) →
    (inspect highEntropy body ctx).isBlocked = true

/-- A match that the entropy rule counts. -/
def Genuine (body : List UInt8) (m : Match Signature) : Prop :=
  m.pattern.tier = .challenge ∨
    passesBoundaryFilter body m = true ∧ isConfigStringMatch body m = false

/-- A control header at a blocking status, or a rule of the entropy. -/
def OtherGrounds (highEntropy : List UInt8 → Bool) (body : List UInt8) (ctx : InspectionContext) :
    Prop :=
  isT2BlockingStatus ctx.status = true ∧ collectHeaderEvidence ctx ≠ [] ∨
    (entropyEvidence highEntropy body ctx false).isSome = true ∨
    (entropyEvidence highEntropy body ctx true).isSome = true ∧
      (collectHeaderEvidence ctx ≠ [] ∨
        ∃ m, Seen Signature.word wafBodySignatures body m ∧ Genuine body m)

/-- What is telling is not lost altogether: if it occurs, then an occurrence of it is cut by nothing
seen that is not telling. -/
def Unhidden (body : List UInt8) (ctx : InspectionContext) : Prop :=
  (∃ m, Occurs Signature.word wafBodySignatures body m ∧ Telling body ctx m) →
    ∃ m, Occurs Signature.word wafBodySignatures body m ∧ Telling body ctx m ∧
      ∀ r, Seen Signature.word wafBodySignatures body r → r.Cuts m → Telling body ctx r

/-! ## The matches -/

theorem word_nodup : (wafBodySignatures.map Signature.word).Nodup := by decide +kernel

theorem word_ne_nil : ∀ sig ∈ wafBodySignatures, sig.word ≠ [] := by decide +kernel

theorem word_injOn : ∀ p ∈ wafBodySignatures, ∀ q ∈ wafBodySignatures, p.word = q.word → p = q :=
  fun _ here _ there same => List.inj_on_of_nodup_map word_nodup here there same

/-- The matches are what is seen of the signatures. -/
theorem isScan_findIter (body : List UInt8) :
    Occurrences.IsScan Signature.word wafBodySignatures body (· ∈ findIter body) :=
  Occurrences.mem_findIter word_ne_nil word_injOn body

theorem mem_findIter_iff (body : List UInt8) (m : Match Signature) :
    m ∈ findIter body ↔ Seen Signature.word wafBodySignatures body m :=
  Occurrences.mem_findIter_iff_seen word_ne_nil word_injOn body m

/-- A signature that another one begins is reported of no body. -/
theorem ne_of_shadowed {p q : Signature} (known : q ∈ wafBodySignatures) {behind : List UInt8}
    (longer : p.word = q.word ++ behind) (more : behind ≠ []) (body : List UInt8) :
    ∀ m ∈ findIter body, m.pattern ≠ p := fun _ member is =>
  (isScan_findIter body).not_of_longer known longer more (word_ne_nil q known) is member

/-! ## The evidence of the matches -/

theorem correlated_iff (ctx : InspectionContext) :
    Correlated ctx ↔ isT2BlockingStatus ctx.status = true ∧ is5xx ctx.status = false := by
  rw [Correlated, isT2BlockingStatus, is5xx]
  cases ctx.status with
  | none => simp
  | some status =>
      simp
      omega

theorem passes_of_challenge {body : List UInt8} {m : Match Signature}
    (is : m.pattern.tier = .challenge) : passesBoundaryFilter body m = true := by
  rw [passesBoundaryFilter, is]
  rfl

/-- A fingerprint of the body. -/
def Noise (ev : WafEvidence) : Prop := ev.tier = .fingerprint ∧ ev.source = .body

theorem blocks_noise {ctx : InspectionContext} {ev : WafEvidence} (noise : Noise ev) :
    blocks ctx ev = true ↔ Correlated ctx := by
  rw [blocks, noise.1, noise.2, correlated_iff]
  simp

theorem decide_noise {ctx : InspectionContext} {evidences : List WafEvidence}
    (noise : ∀ ev ∈ evidences, Noise ev) :
    decide evidences ctx = true ↔ Correlated ctx ∧ evidences ≠ [] := by
  rw [decide, List.any_eq_true]
  constructor
  · intro ⟨ev, member, blocked⟩
    exact ⟨(blocks_noise (noise ev member)).mp blocked, List.ne_nil_of_mem member⟩
  · intro ⟨correlated, nonempty⟩
    obtain ⟨ev, member⟩ := List.exists_mem_of_ne_nil evidences nonempty
    exact ⟨ev, member, (blocks_noise (noise ev member)).mpr correlated⟩

/-- A match that is filtered out is neither telling nor genuine. -/
theorem not_telling {body : List UInt8} {m : Match Signature}
    (filtered : passesBoundaryFilter body m ≠ true) (ctx : InspectionContext) :
    ¬ Telling body ctx m := by
  rintro (challenge | ⟨-, passes⟩)
  · exact filtered (passes_of_challenge challenge)
  · exact filtered passes

theorem not_genuine {body : List UInt8} {m : Match Signature}
    (filtered : passesBoundaryFilter body m ≠ true) : ¬ Genuine body m := by
  rintro (challenge | ⟨passes, -⟩)
  · exact filtered (passes_of_challenge challenge)
  · exact filtered passes

/-- The evidence that is collected blocks just when a match is telling, or noise was before. -/
theorem decide_collectFrom {body : List UInt8} {ctx : InspectionContext} {genuine : Bool}
    {found : List (Match Signature)} {evidences : List WafEvidence}
    (noise : ∀ ev ∈ evidences, Noise ev) :
    decide (collectFrom body evidences genuine found).1 ctx = true ↔
      Correlated ctx ∧ evidences ≠ [] ∨ ∃ m ∈ found, Telling body ctx m := by
  induction found generalizing evidences genuine with
  | nil => simp [collectFrom, decide_noise noise]
  | cons mat found ih =>
      rw [collectFrom, List.exists_mem_cons_iff]
      by_cases passes : passesBoundaryFilter body mat = true
      · rw [if_neg (by simp [passes])]
        cases tier : mat.pattern.tier with
        | challenge =>
            refine iff_of_true ?_ (.inr (.inl (.inl tier)))
            rw [decide, List.any_cons, blocks, bodyEvidence, tier]
            rfl
        | fingerprint =>
            have here : Noise (bodyEvidence mat.pattern) := ⟨tier, rfl⟩
            have tells : Telling body ctx mat ↔ Correlated ctx := by
              rw [Telling, tier, passes]
              simp
            have grown : (if evidences.length < maxEvidencePerBody then
                evidences ++ [bodyEvidence mat.pattern] else evidences) ≠ [] := by
              split
              case isTrue => simp
              case isFalse full =>
                rintro rfl
                exact full (by decide)
            dsimp only
            rw [ih, and_iff_left grown, tells]
            · tauto
            · split
              · exact List.forall_mem_append.mpr ⟨noise, List.forall_mem_singleton.mpr here⟩
              · exact noise
      · rw [if_pos (by simp [passes]), ih noise, or_iff_right (not_telling passes ctx)]

theorem snd_collectFrom {body : List UInt8} {genuine : Bool} {found : List (Match Signature)}
    {evidences : List WafEvidence} :
    (collectFrom body evidences genuine found).2 = true ↔
      genuine = true ∨ ∃ m ∈ found, Genuine body m := by
  induction found generalizing evidences genuine with
  | nil => simp [collectFrom]
  | cons mat found ih =>
      rw [collectFrom, List.exists_mem_cons_iff]
      by_cases passes : passesBoundaryFilter body mat = true
      · rw [if_neg (by simp [passes])]
        cases tier : mat.pattern.tier with
        | challenge => exact iff_of_true rfl (.inr (.inl (.inl tier)))
        | fingerprint =>
            have counts : Genuine body mat ↔ isConfigStringMatch body mat = false := by
              rw [Genuine, tier, passes]
              simp
            dsimp only
            rw [ih, Bool.or_eq_true, Bool.not_eq_true', counts, or_assoc]
      · rw [if_pos (by simp [passes]), ih, or_iff_right (not_genuine passes)]

/-! ## The verdict -/

theorem decide_append (evidences more : List WafEvidence) (ctx : InspectionContext) :
    decide (evidences ++ more) ctx = (decide evidences ctx || decide more ctx) := List.any_append

theorem decide_headers (ctx : InspectionContext) :
    decide (collectHeaderEvidence ctx) ctx = true ↔
      isT2BlockingStatus ctx.status = true ∧ collectHeaderEvidence ctx ≠ [] := by
  have each : ∀ ev ∈ collectHeaderEvidence ctx, blocks ctx ev = isT2BlockingStatus ctx.status := by
    intro ev member
    obtain ⟨header, -, rfl⟩ := List.mem_map.mp member
    simp [blocks]
  rw [decide, List.any_eq_true]
  constructor
  · intro ⟨ev, member, blocked⟩
    exact ⟨(each ev member).symm.trans blocked, List.ne_nil_of_mem member⟩
  · intro ⟨status, nonempty⟩
    obtain ⟨ev, member⟩ := List.exists_mem_of_ne_nil _ nonempty
    exact ⟨ev, member, (each ev member).trans status⟩

variable (highEntropy : List UInt8 → Bool)

/-- The evidence of the entropy is always a challenge. -/
theorem decide_entropy (body : List UInt8) (ctx : InspectionContext) (genuine : Bool) :
    decide (entropyEvidence highEntropy body ctx genuine).toList ctx =
      (entropyEvidence highEntropy body ctx genuine).isSome := by
  rw [entropyEvidence]
  split
  · rfl
  · split
    · rfl
    · rfl

theorem isSome_entropyEvidence (body : List UInt8) (ctx : InspectionContext) (genuine : Bool) :
    (entropyEvidence highEntropy body ctx genuine).isSome = true ↔
      (entropyEvidence highEntropy body ctx false).isSome = true ∨
        (entropyEvidence highEntropy body ctx true).isSome = true ∧ genuine = true := by
  have mono : (entropyEvidence highEntropy body ctx false).isSome = true →
      (entropyEvidence highEntropy body ctx true).isSome = true := by
    intro shown
    rw [entropyEvidence]
    split
    case isTrue => rfl
    case isFalse small =>
      rw [entropyEvidence, if_neg] at shown
      · exact shown
      · simp only [Bool.or_true, Bool.and_true] at small
        simp [small]
  cases genuine with
  | false => simp
  | true => simpa using mono

/-- A scanned body is blocked just when something telling is seen in it, or on other grounds. -/
theorem isBlocked_iff {body : List UInt8} {ctx : InspectionContext} (heeded : ctx.ignoreWaf = false)
    (scanned : shouldScanBody ctx = true) : (inspect highEntropy body ctx).isBlocked = true ↔
      (∃ m, Seen Signature.word wafBodySignatures body m ∧ Telling body ctx m) ∨
        OtherGrounds highEntropy body ctx := by
  have told : decide (collectBodyEvidence body).1 ctx = true ↔
      ∃ m, Seen Signature.word wafBodySignatures body m ∧ Telling body ctx m := by
    rw [collectBodyEvidence, decide_collectFrom (List.forall_mem_nil _)]
    simp only [mem_findIter_iff, ne_eq, not_true_eq_false, and_false, false_or]
  have genuine : ((collectBodyEvidence body).2 || !(collectHeaderEvidence ctx).isEmpty) = true ↔
      collectHeaderEvidence ctx ≠ [] ∨
        ∃ m, Seen Signature.word wafBodySignatures body m ∧ Genuine body m := by
    rw [Bool.or_eq_true, collectBodyEvidence, snd_collectFrom, or_comm]
    simp only [mem_findIter_iff, Bool.false_eq_true, false_or, Bool.not_eq_true',
      List.isEmpty_eq_false_iff]
  have verdict : (inspect highEntropy body ctx).isBlocked =
      decide (evidence highEntropy body ctx) ctx := by
    rw [inspect, heeded]
    rfl
  rw [verdict, evidence, scanned, if_pos rfl, if_pos rfl, decide_append, decide_append,
    Bool.or_eq_true, Bool.or_eq_true, told, decide_headers, decide_entropy, isSome_entropyEvidence,
    genuine, or_assoc]
  rfl

/-- Something telling is not lost unless all of it is cut by what is not telling. -/
theorem scanComplete_iff (body : List UInt8) (ctx : InspectionContext)
    (heeded : ctx.ignoreWaf = false) (scanned : shouldScanBody ctx = true) :
    ScanComplete highEntropy body ctx ↔ OtherGrounds highEntropy body ctx ∨ Unhidden body ctx := by
  have seen := (isScan_findIter body).exists_iff (Telling body ctx)
  simp only [mem_findIter_iff] at seen
  rw [ScanComplete, isBlocked_iff highEntropy heeded scanned, seen, Unhidden]
  by_cases occurs : ∃ m, Occurs Signature.word wafBodySignatures body m ∧ Telling body ctx m
  · rw [imp_iff_right occurs, imp_iff_right occurs, or_comm]
  · exact iff_of_true (fun there => absurd there occurs) (.inr fun there => absurd there occurs)

/-- A served page. -/
def served (status : Nat) : InspectionContext := ⟨some status, some "text/html", ∅, false⟩

theorem widget_unhidden : OtherGrounds (fun _ => false) (asBytes "h-captcha") (served 200) ∨
    Unhidden (asBytes "h-captcha") (served 200) := by
  refine (scanComplete_iff _ _ _ rfl (by decide +kernel)).mp fun _ => ?_
  decide +kernel

/-- The name of the vendor of a widget. -/
def vendor : Signature := ⟨"hcaptcha", "hCaptcha", .fingerprint, .bare⟩

/-- The script of a widget is a challenge, but the name of its vendor is seen first; and a name that
is filtered out hides the address of the widget. -/
theorem vendor_hides_challenge :
    ¬ ScanComplete (fun _ => false) (asBytes "hcaptcha.js") (served 200) ∧
      ¬ ScanComplete (fun _ => false) (asBytes "xhcaptcha.com") (served 403) := by
  have script : findIter (asBytes "hcaptcha.js") = [⟨vendor, 0, 8⟩] := by decide +kernel
  have address : findIter (asBytes "xhcaptcha.com") = [⟨vendor, 1, 9⟩] := by decide +kernel
  constructor
  · intro complete
    have passed : (inspect (fun _ => false) (asBytes "hcaptcha.js") (served 200)).isBlocked = false := by
      rw [inspect, evidence, collectBodyEvidence, script]
      decide +kernel
    have blocked := complete ⟨⟨⟨"hcaptcha.js", "hCaptcha", .challenge, .phrase⟩, 0, 11⟩,
      ⟨by decide +kernel, [], [], rfl, rfl, rfl⟩, .inl rfl⟩
    rw [passed] at blocked
    exact Bool.false_ne_true blocked
  · intro complete
    have passed : (inspect (fun _ => false) (asBytes "xhcaptcha.com") (served 403)).isBlocked = false := by
      rw [inspect, evidence, collectBodyEvidence, address]
      decide +kernel
    have blocked := complete ⟨⟨⟨"hcaptcha.com", "hCaptcha", .fingerprint, .phrase⟩, 1, 13⟩,
      ⟨by decide +kernel, asBytes "x", [], rfl, rfl, rfl⟩, .inr ⟨.inl rfl, by decide +kernel⟩⟩
    rw [passed] at blocked
    exact Bool.false_ne_true blocked

end Webfang.Waf
