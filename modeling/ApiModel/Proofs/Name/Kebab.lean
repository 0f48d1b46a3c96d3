import Mathlib
import ApiModel.Proofs.Name

/-! Kebab case as a normal form. What is in kebab case has no capitals, and of the separators it has
hyphens only, none in front and none after another. Such names, and no others, are kept as they are;
of any other name the separators are lost, hyphens are put in, and the rest is in small letters. -/

namespace ApiModel.Name

variable {c : Char} {s t : List Char} {before written after : Option Char}

theorem isSeparator_toLower (c : Char) : isSeparator c.toLower = isSeparator c := by
  rcases Casing.toLower_eq_or_isLetter c with same | ⟨source, image⟩
  · rw [same]
  · rw [isSeparator_of_isLetter source, isSeparator_of_isLetter image]

theorem toLower_ne_hyphen (h : ¬ isSeparator c = true) : c.toLower ≠ '-' := by
  intro hyphen
  rw [← isSeparator_toLower, hyphen] at h
  exact h rfl

theorem startsWord_of_not_isUpper (h : c.isUpper = false) : startsWord before c after = false := by
  rw [startsWord, h, Bool.false_and]

theorem startsWord_of_isSeparator (h : ∀ b ∈ before, isSeparator b = true) :
    startsWord before c after = false := by
  cases before with
  | none => exact Bool.and_false _
  | some b =>
    have separator := h b rfl
    simp only [isSeparator, Bool.or_eq_true, beq_iff_eq] at separator
    rcases separator with ((rfl | rfl) | rfl) | rfl <;> simp [startsWord]

/-! ### Characters -/

theorem mem_kebabFrom (h : c ∈ kebabFrom before written s) :
    c.isUpper = false ∧ (isSeparator c = true → c = '-') := by
  have kept {x : Char} (plain : ¬ isSeparator x = true) :
      x.toLower.isUpper = false ∧ (isSeparator x.toLower = true → x.toLower = '-') := by
    refine ⟨Char.isUpper_toLower_eq_false x, fun separator => ?_⟩
    exact absurd (isSeparator_toLower x ▸ separator) plain
  fun_induction kebabFrom before written s
  case case1 => cases h
  case case2 ih => exact ih h
  case case3 ih =>
    rcases List.mem_cons.1 h with rfl | h
    · exact ⟨rfl, fun _ => rfl⟩
    · exact ih h
  case case4 plain rest _ ih =>
    rcases List.mem_cons.1 h with rfl | h
    · exact ⟨rfl, fun _ => rfl⟩
    · rcases List.mem_cons.1 h with rfl | h
      · exact kept plain
      · exact ih h
  case case5 plain rest _ ih =>
    rcases List.mem_cons.1 h with rfl | h
    · exact kept plain
    · exact ih h

theorem filter_kebabFrom (before written : Option Char) (s : List Char) :
    (kebabFrom before written s).filter (· != '-') =
      (s.filter (!isSeparator ·)).map Char.toLower := by
  have hyphen (t : List Char) : ('-' :: t).filter (· != '-') = t.filter (· != '-') :=
    List.filter_cons_of_neg (by decide)
  have kept {x : Char} (plain : ¬ isSeparator x = true) (t : List Char) :
      (x.toLower :: t).filter (· != '-') = x.toLower :: t.filter (· != '-') :=
    List.filter_cons_of_pos (by simpa using toLower_ne_hyphen plain)
  fun_induction kebabFrom before written s
  case case1 => rfl
  case case2 separator _ ih => rw [ih, List.filter_cons_of_neg (by simp [separator])]
  case case3 separator _ ih => rw [hyphen, ih, List.filter_cons_of_neg (by simp [separator])]
  case case4 plain rest _ ih =>
    rw [hyphen, kept plain, ih, List.filter_cons_of_pos (by simp [plain]), List.map_cons]
  case case5 plain rest _ ih =>
    rw [kept plain, ih, List.filter_cons_of_pos (by simp [plain]), List.map_cons]

/-! ### Hyphens -/

def HyphensApart (t : List Char) : Prop := t.IsChain fun a b => ¬ (a = '-' ∧ b = '-')

theorem hyphensApart_hyphen_cons :
    HyphensApart ('-' :: t) ↔ t.head? ≠ some '-' ∧ HyphensApart t := by
  unfold HyphensApart
  rw [List.isChain_cons]
  cases t <;> simp

theorem getD_hyphen_iff :
    written.getD '-' = '-' ↔ (written.isNone || written == some '-') = true := by
  cases written <;> simp

/-- A name begins as if a hyphen were written before it, so that none can follow. -/
theorem hyphensApart_kebabFrom (written : Option Char)
    (fresh : written = none → ∀ b ∈ before, isSeparator b = true) :
    HyphensApart (written.getD '-' :: kebabFrom before written s) := by
  fun_induction kebabFrom before written s
  case case1 => exact List.isChain_singleton _
  case case2 separator _ ih => exact ih fun _ b hb => Option.some.inj hb ▸ separator
  case case3 wrote ih =>
    exact List.isChain_cons_cons.2 ⟨fun both => wrote (getD_hyphen_iff.1 both.1), ih nofun⟩
  case case4 written c cs plain rest starts ih =>
    rw [Bool.and_eq_true, bne_iff_ne] at starts
    have wrote : written.getD '-' ≠ '-' := by
      cases written with
      | none =>
        -- Nothing is written yet, so only separators were read and no word starts here.
        rw [startsWord_of_isSeparator (fresh rfl)] at starts
        exact absurd starts.1 Bool.false_ne_true
      | some x => exact fun hyphen => starts.2 (congrArg some hyphen)
    exact List.isChain_cons_cons.2 ⟨fun both => wrote both.1, List.isChain_cons_cons.2
      ⟨fun both => toLower_ne_hyphen plain both.2, ih nofun⟩⟩
  case case5 plain rest _ ih =>
    exact List.isChain_cons_cons.2 ⟨fun both => toLower_ne_hyphen plain both.2, ih nofun⟩

structure IsKebab (t : List Char) : Prop where
  small : ∀ c ∈ t, c.isUpper = false
  hyphens : ∀ c ∈ t, isSeparator c = true → c = '-'
  start : t.head? ≠ some '-'
  apart : HyphensApart t

theorem isKebab_kebabCase (s : List Char) : IsKebab (kebabCase s) := by
  have apart : HyphensApart ('-' :: kebabCase s) :=
    hyphensApart_kebabFrom none fun _ b hb => absurd hb (Option.not_mem_none b)
  obtain ⟨start, apart⟩ := hyphensApart_hyphen_cons.1 apart
  exact ⟨fun _ h => (mem_kebabFrom h).1, fun _ h => (mem_kebabFrom h).2, start, apart⟩

theorem kebabFrom_eq_self (small : ∀ c ∈ t, c.isUpper = false)
    (hyphens : ∀ c ∈ t, isSeparator c = true → c = '-')
    (apart : HyphensApart (written.getD '-' :: t)) : kebabFrom before written t = t := by
  induction t generalizing before written with
  | nil => rfl
  | cons c t ih =>
    obtain ⟨capital, laterSmall⟩ := List.forall_mem_cons.1 small
    obtain ⟨hyphen, laterHyphens⟩ := List.forall_mem_cons.1 hyphens
    obtain ⟨next, laterApart⟩ := List.isChain_cons_cons.1 apart
    have rest (before : Option Char) : kebabFrom before (some c) t = t :=
      ih laterSmall laterHyphens laterApart
    unfold kebabFrom
    by_cases separator : isSeparator c = true
    · obtain rfl := hyphen separator
      have wrote : ¬ (written.isNone || written == some '-') = true :=
        fun after => next ⟨getD_hyphen_iff.2 after, rfl⟩
      rw [if_pos separator, if_neg wrote, rest]
    · have same : c.toLower = c := Char.toLower_eq_of_not_isUpper (by simp [capital])
      rw [if_neg separator, startsWord_of_not_isUpper capital, same, rest]
      rfl

theorem kebabCase_eq_self_iff : kebabCase t = t ↔ IsKebab t := by
  constructor
  · intro same
    exact same ▸ isKebab_kebabCase t
  · intro h
    exact kebabFrom_eq_self h.small h.hyphens (hyphensApart_hyphen_cons.2 ⟨h.start, h.apart⟩)

/-- Kebab case is a normal form: the first time it changes no more of a name than capitals and
separators, and a second time it changes nothing. -/
theorem kebabCase_normalizes (s : List Char) : IsKebab (kebabCase s) ∧
    (kebabCase s).filter (· != '-') = (s.filter (!isSeparator ·)).map Char.toLower ∧
    kebabCase (kebabCase s) = kebabCase s :=
  ⟨isKebab_kebabCase s, filter_kebabFrom none none s,
    kebabCase_eq_self_iff.2 (isKebab_kebabCase s)⟩

example : kebabCase "HTTPServer_v2.Ärger".toList = "http-server-v2-Ärger".toList := by decide

end ApiModel.Name
