import Conform.Proofs.Relocation
import Conform.Proofs.Segments

/-!
# Conform.Proofs.RenderedSteps

Places are texts, and whether one lies below another is asked of the texts. For steps by plain
names, without the marks of a place, that is as good as asking the steps:

```
steps     address, tags, 10     tail     .address.tags[10]     place     address.tags[10]
```

Behind another step each step is written as a mark, `.` or `[`, and a body without marks. So a text
is cut into steps in one way only (`isPrefix_of_tail`): `address` is no beginning of `addressBook`
because what follows has to begin with a mark, and `[1]` is none of `[10]` because a body goes on to
the next mark. In front of a place the period is left out, and a first step by name is told from one
by index by the bracket.
-/

namespace Conform

namespace Path

/-- A name without the marks of a place, and without the slash that stands for one in a target. -/
structure PlainName (m : String) : Prop where
  ne_empty : m ≠ ""
  free : ∀ c ∈ m.toList, c ≠ '.' ∧ c ≠ '[' ∧ c ≠ '/'

theorem plainName_iff (m : String) :
    PlainName m ↔
      (m != "" && m.toList.all fun c => c != '.' && c != '[' && c != '/') = true := by
  constructor
  · intro h
    simpa [h.ne_empty, and_assoc] using h.free
  · intro h
    simp only [Bool.and_eq_true, bne_iff_ne, ne_eq, List.all_eq_true, and_assoc] at h
    exact ⟨h.1, h.2⟩

instance : DecidablePred PlainName := fun m => decidable_of_iff _ (plainName_iff m).symm

/-- A step by a plain name or by an index. -/
def Step.Plain : Step → Prop
  | .name m => PlainName m
  | .index _ => True

/-- Steps by plain names and by indices. -/
def Plain (steps : List Step) : Prop := ∀ s ∈ steps, s.Plain

variable {s t : Step} {steps : List Step}

theorem Plain.nil : Plain [] := nofun

theorem plain_cons : Plain (s :: steps) ↔ s.Plain ∧ Plain steps := List.forall_mem_cons

/-! ## Steps in writing -/

/-- The mark that a step begins with. -/
def Step.mark : Step → Char
  | .name _ => '.'
  | .index _ => '['

/-- What stands behind the mark of a step. -/
def Step.body : Step → List Char
  | .name m => m.toList
  | .index i => Nat.toDigits 10 i ++ [']']

/-- Steps in writing, behind another step. -/
def tail (steps : List Step) : List Char := steps.flatMap fun s => s.mark :: s.body

/-- Whether a character is the mark of a step. -/
def isMark (c : Char) : Bool := c == '.' || c == '['

/-- A text that goes on with another step, or ends. -/
def BeginsStep (cs : List Char) : Prop := ∀ c ∈ cs.head?, isMark c = true

@[simp] theorem tail_nil : tail [] = [] := rfl

theorem tail_cons (s : Step) (steps : List Step) :
    tail (s :: steps) = s.mark :: (s.body ++ tail steps) := rfl

theorem isMark_mark (s : Step) : isMark s.mark = true := by
  cases s <;> rfl

theorem BeginsStep.nil : BeginsStep [] := nofun

theorem BeginsStep.cons {c : Char} (h : isMark c = true) (cs : List Char) :
    BeginsStep (c :: cs) := by
  rintro _ ⟨⟩
  exact h

theorem beginsStep_tail (steps : List Step) : BeginsStep (tail steps) := by
  cases steps with
  | nil => exact .nil
  | cons s steps => exact .cons (isMark_mark s) _

/-- A body holds no mark. -/
theorem Step.Plain.isMark_eq_false (hs : s.Plain) : ∀ c ∈ s.body, isMark c = false := by
  intro c hc
  cases s with
  | name m =>
    obtain ⟨hpoint, hbracket, -⟩ := hs.free c hc
    simp [isMark, hpoint, hbracket]
  | index i =>
    obtain hc | hc := List.mem_append.mp hc
    · have hdigit : c.isDigit = true := Nat.isDigit_of_mem_toDigits (by omega) (by omega) hc
      have hpoint : c ≠ '.' := by
        rintro rfl
        exact absurd hdigit (by decide)
      have hbracket : c ≠ '[' := by
        rintro rfl
        exact absurd hdigit (by decide)
      simp [isMark, hpoint, hbracket]
    · rw [List.mem_singleton.mp hc]
      rfl

/-- Mark and body tell the step. -/
theorem Step.eq_of_mark_body (hmark : s.mark = t.mark) (hbody : s.body = t.body) : s = t := by
  cases s with
  | name m =>
    cases t with
    | name m' => rw [String.toList_inj.mp hbody]
    | index j => exact absurd hmark (by simp [mark])
  | index i =>
    cases t with
    | name m' => exact absurd hmark (by simp [mark])
    | index j =>
      have hdigits : Nat.toDigits 10 i = Nat.toDigits 10 j := List.append_cancel_right hbody
      have hij : i = j := by
        rw [← @Nat.ofDigitChars_ten_toDigits i, hdigits, Nat.ofDigitChars_ten_toDigits]
      rw [hij]

/-! ## Texts cut into steps -/

/-- What goes before the first mark of a text is known from the text. -/
theorem append_inj_of_beginsStep {as bs xs ys : List Char} (ha : ∀ c ∈ as, isMark c = false)
    (hb : ∀ c ∈ bs, isMark c = false) (hx : BeginsStep xs) (hy : BeginsStep ys)
    (h : as ++ xs = bs ++ ys) : as = bs ∧ xs = ys := by
  have hcut : ∀ {as xs : List Char}, (∀ c ∈ as, isMark c = false) → BeginsStep xs →
      (as ++ xs).takeWhile (fun c => !isMark c) = as := by
    intro as xs ha hx
    rw [List.takeWhile_append_of_pos fun c hc => by rw [ha c hc, Bool.not_false]]
    cases xs with
    | nil => simp
    | cons c cs => rw [List.takeWhile_cons_of_neg (by simp [hx c rfl]), List.append_nil]
  have hsame : as = bs := by rw [← hcut ha hx, h, hcut hb hy]
  subst hsame
  exact ⟨rfl, List.append_cancel_left h⟩

/-- Steps in writing begin with other steps in writing, up to a mark, only where they begin with
these steps. -/
theorem isPrefix_of_tail {t s : List Step} (ht : Plain t) (hs : Plain s) {rest : List Char}
    (hrest : BeginsStep rest) (h : tail s = tail t ++ rest) : t <+: s := by
  induction t generalizing s with
  | nil => exact List.nil_prefix
  | cons a t ih =>
    cases s with
    | nil => simp [tail_cons] at h
    | cons b s =>
      rw [plain_cons] at ht hs
      rw [tail_cons, tail_cons, List.cons_append, List.append_assoc, List.cons.injEq] at h
      obtain ⟨hmark, hbehind⟩ := h
      have hbegins : BeginsStep (tail t ++ rest) := by
        cases t with
        | nil => exact hrest
        | cons c t => exact .cons (isMark_mark c) _
      obtain ⟨hbody, htail⟩ := append_inj_of_beginsStep hs.1.isMark_eq_false
        ht.1.isMark_eq_false (beginsStep_tail s) hbegins hbehind
      rw [Step.eq_of_mark_body hmark hbody]
      exact List.cons_prefix_cons.mpr ⟨rfl, ih ht.2 hs.2 htail⟩

/-! ## Places -/

theorem toList_index (path : String) (i : Nat) :
    (index path i).toList = path.toList ++ '[' :: (Nat.toDigits 10 i ++ [']']) := by
  simp [index_eq]

theorem toList_extend {path : String} (h : path ≠ "") (s : Step) :
    (extend path s).toList = path.toList ++ s.mark :: s.body := by
  cases s with
  | name m => simp [extend, name_of_ne_front h, Step.mark, Step.body]
  | index i => exact toList_index path i

theorem extend_ne_front {path : String} (h : path ≠ "") (s : Step) : extend path s ≠ "" := by
  cases s with
  | name m => exact name_ne_front h m
  | index i => exact index_ne_front path i

/-- Behind a place that is not the front, steps are written one after the other. -/
theorem toList_render {path : String} (h : path ≠ "") (steps : List Step) :
    (render path steps).toList = path.toList ++ tail steps := by
  induction steps generalizing path with
  | nil => simp
  | cons s steps ih =>
    have hstep : render path (s :: steps) = render (extend path s) steps := rfl
    rw [hstep, ih (extend_ne_front h s), toList_extend h, tail_cons, List.append_assoc,
      List.cons_append]

/-- At the front a name goes without its period. -/
theorem toList_render_name {m : String} (hm : m ≠ "") (steps : List Step) :
    (render "" (.name m :: steps)).toList = m.toList ++ tail steps := by
  have hstep : render "" (.name m :: steps) = render m steps := by
    simp [render, extend, name]
  rw [hstep, toList_render hm]

theorem toList_render_index (i : Nat) (steps : List Step) :
    (render "" (.index i :: steps)).toList = tail (.index i :: steps) := by
  have hstep : render "" (.index i :: steps) = render (index "" i) steps := rfl
  rw [hstep, toList_render (index_ne_front "" i), toList_index]
  rfl

/-- What is left out of a step at the front. -/
def Step.omitted : Step → List Char
  | .name _ => ['.']
  | .index _ => []

theorem tail_eq_omitted_append (hs : s.Plain) (steps : List Step) :
    tail (s :: steps) = s.omitted ++ (render "" (s :: steps)).toList := by
  cases s with
  | name m =>
    rw [toList_render_name hs.ne_empty]
    rfl
  | index i =>
    rw [toList_render_index]
    rfl

/-- The first character of a place is no slash, and it shows whether the first step is by name. -/
theorem exists_head?_render (hs : s.Plain) (steps : List Step) :
    ∃ c, (render "" (s :: steps)).toList.head? = some c ∧ c ≠ '/' ∧ (c = '[' ↔ s.omitted = []) := by
  cases s with
  | name m =>
    rw [toList_render_name hs.ne_empty]
    cases hm : m.toList with
    | nil => exact absurd (String.toList_eq_nil_iff.mp hm) hs.ne_empty
    | cons c cs =>
      obtain ⟨-, hbracket, hslash⟩ := hs.free c (by rw [hm]; exact List.mem_cons_self)
      exact ⟨c, rfl, hslash, by simp [Step.omitted, hbracket]⟩
  | index i =>
    rw [toList_render_index, tail_cons]
    exact ⟨'[', rfl, by decide, by simp [Step.omitted]⟩

theorem toList_render_ne_nil (hs : s.Plain) (steps : List Step) :
    (render "" (s :: steps)).toList ≠ [] := by
  obtain ⟨c, hc, -⟩ := exists_head?_render hs steps
  exact List.ne_nil_of_mem (List.mem_of_head? hc)

/-- A place goes on from that of other steps with a further step, or ends there, only where the
steps begin with these. -/
theorem isPrefix_of_render {t s : List Step} (ht : Plain t) (hs : Plain s) (hne : t ≠ [])
    {rest : List Char} (hrest : BeginsStep rest)
    (h : (render "" s).toList = (render "" t).toList ++ rest) : t <+: s := by
  cases t with
  | nil => exact absurd rfl hne
  | cons a t =>
    have ha : a.Plain := (plain_cons.mp ht).1
    have hplace : (render "" (a :: t)).toList ≠ [] := toList_render_ne_nil ha t
    cases s with
    | nil => exact absurd (List.append_eq_nil_iff.mp h.symm).1 hplace
    | cons b s =>
      have hb : b.Plain := (plain_cons.mp hs).1
      have hhead : (render "" (b :: s)).toList.head? = (render "" (a :: t)).toList.head? := by
        rw [h, List.head?_append_of_ne_nil _ hplace]
      have homitted : b.omitted = a.omitted := by
        obtain ⟨c, hc, -, hca⟩ := exists_head?_render ha t
        obtain ⟨d, hd, -, hdb⟩ := exists_head?_render hb s
        obtain rfl : d = c := Option.some.inj (by rw [← hd, hhead, hc])
        rw [hca] at hdb
        cases a <;> cases b <;> simp_all [Step.omitted]
      refine isPrefix_of_tail ht hs hrest ?_
      rw [tail_eq_omitted_append hb, tail_eq_omitted_append ha, h, homitted, List.append_assoc]

/-- Different steps are at different places. -/
theorem render_injective {t s : List Step} (ht : Plain t) (hs : Plain s)
    (h : render "" s = render "" t) : s = t := by
  have hbegins : ∀ {t s : List Step}, Plain t → Plain s → render "" s = render "" t → t <+: s := by
    intro t s ht hs h
    by_cases hne : t = []
    · rw [hne]
      exact List.nil_prefix
    · exact isPrefix_of_render ht hs hne .nil (by rw [h, List.append_nil])
  have hst := hbegins hs ht h.symm
  exact hst.eq_of_length_le (hbegins ht hs h).length_le

/-! ## Places below places -/

/-- One place lies below another if it goes on from it with a step. -/
theorem isUnder_iff (path target : String) :
    isUnder path target = true ↔
      ∃ rest, BeginsStep rest ∧ path.toList = target.toList ++ rest := by
  have hstarts : ∀ mark : String,
      startsWith path (target ++ mark) = true ↔
        ∃ rest, path.toList = target.toList ++ (mark.toList ++ rest) := by
    intro mark
    rw [startsWith, List.isPrefixOf_iff_prefix, String.toList_append]
    constructor
    · rintro ⟨rest, hrest⟩
      exact ⟨rest, by rw [← hrest, List.append_assoc]⟩
    · rintro ⟨rest, hrest⟩
      exact ⟨rest, by rw [hrest, List.append_assoc]⟩
  rw [isUnder, Bool.or_eq_true, Bool.or_eq_true, hstarts, hstarts, beq_iff_eq]
  constructor
  · rintro ((rfl | ⟨rest, hrest⟩) | ⟨rest, hrest⟩)
    · exact ⟨[], .nil, (List.append_nil _).symm⟩
    · exact ⟨'.' :: rest, .cons rfl rest, hrest⟩
    · exact ⟨'[' :: rest, .cons rfl rest, hrest⟩
  · rintro ⟨_ | ⟨c, rest⟩, hbegins, hrest⟩
    · rw [List.append_nil] at hrest
      exact .inl (.inl (String.toList_inj.mp hrest))
    · have hc : c = '.' ∨ c = '[' := by simpa [isMark] using hbegins c rfl
      obtain rfl | rfl := hc
      · exact .inl (.inr ⟨rest, hrest⟩)
      · exact .inr ⟨rest, hrest⟩

/-- One place lies at another or below it exactly if the steps to it begin with those to the
other. -/
theorem isUnder_render_iff {t s : List Step} (ht : Plain t) (hs : Plain s) (hne : t ≠ []) :
    isUnder (render "" s) (render "" t) = true ↔ t <+: s := by
  rw [isUnder_iff]
  constructor
  · rintro ⟨rest, hbegins, hrest⟩
    exact isPrefix_of_render ht hs hne hbegins hrest
  · rintro ⟨further, rfl⟩
    refine ⟨tail further, beginsStep_tail further, ?_⟩
    cases t with
    | nil => exact absurd rfl hne
    | cons a t =>
      have hfront : render "" (a :: t) ≠ "" := fun hfront =>
        toList_render_ne_nil (plain_cons.mp ht).1 t (String.toList_eq_nil_iff.mpr hfront)
      rw [render_append, toList_render hfront]

/-! ## Targets -/

/-- A target that gives names between slashes. -/
def slashed (names : List String) : String :=
  String.ofList ('/' :: List.intercalate ['/'] (names.map String.toList))

/-- Slashes between plain names are all that changes. -/
theorem map_intercalate_slash {names : List String} (h : ∀ m ∈ names, PlainName m) :
    (List.intercalate ['/'] (names.map String.toList)).map (fun c => if c = '/' then '.' else c) =
      (render "" (names.map .name)).toList := by
  have hplain : ∀ {m : String}, PlainName m →
      m.toList.map (fun c => if c = '/' then '.' else c) = m.toList := by
    intro m hm
    refine (List.map_congr_left fun c hc => ?_).trans (List.map_id' _)
    exact if_neg (hm.free c hc).2.2
  induction names with
  | nil => rfl
  | cons m names ih =>
    obtain ⟨hm, hnames⟩ := List.forall_mem_cons.mp h
    have ih := ih hnames
    rw [List.map_cons, List.map_cons, toList_render_name hm.ne_empty]
    cases names with
    | nil => simp [hplain hm]
    | cons m' names =>
      have hm' : (Step.name m').Plain := hnames m' List.mem_cons_self
      have htail : tail ((m' :: names).map Step.name) =
          '.' :: (render "" ((m' :: names).map Step.name)).toList :=
        tail_eq_omitted_append hm' _
      rw [List.map_cons] at ih
      rw [List.map_cons, List.intercalate_cons_cons, List.map_append, List.map_append, hplain hm,
        ih, htail]
      simp

/-- A target with slashes stands for the place of its names. -/
theorem normalize_slashed {names : List String} (h : ∀ m ∈ names, PlainName m) :
    normalize (slashed names) = render "" (names.map .name) := by
  have hmap : normalize (slashed names) = String.ofList
      ((List.intercalate ['/'] (names.map String.toList)).map
        fun c => if c = '/' then '.' else c) := by
    simp only [normalize, slashed, String.toList_ofList]
  rw [hmap, map_intercalate_slash h, String.ofList_toList]

/-- A place is a target as it is. -/
theorem normalize_render {steps : List Step} (h : Plain steps) :
    normalize (render "" steps) = render "" steps := by
  cases steps with
  | nil => rfl
  | cons s steps =>
    obtain ⟨c, hc, hslash, -⟩ := exists_head?_render (plain_cons.mp h).1 steps
    unfold normalize
    split
    · next cs hcs =>
      rw [hcs] at hc
      exact absurd (Option.some.inj hc).symm hslash
    · rfl

end Path

end Conform
