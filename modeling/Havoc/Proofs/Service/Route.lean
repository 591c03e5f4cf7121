import Havoc.Proofs.Text.Blank
import Havoc.Proofs.Text.Cut
import Havoc.Service.Route

/-! # What the routes take

    The catalogue lists fixed paths, and two kinds of paths that name something: a
    back end and an operation, or a job.  A path whose slashes at the end are taken off
    is found among the fixed ones as it stands, and among the others whatever number of
    slashes it begins with.

    The route: `lookup_catalogue`, `nested?_of_named` and `named_of_nested?` say what either
    half finds, and since no path is found in both, `ofPath?_iff` puts them together.
    `resolve_found` is the main theorem; `resolve_unlisted` shows where it goes beyond the
    catalogue. -/

namespace Havoc.Service.Route

open Havoc.Text Havoc.Http

variable {p q : List Char} {method m : String} {r : Route}

/-- A fixed path, with its method and route. -/
def Fixed (p : List Char) (m : String) (r : Route) : Prop :=
  (String.ofList p, m, r) ∈ catalogue

/-- A path that names something, with one slash before each name. -/
inductive Named : List Char → String → Route → Prop where
  | backend (kind : Backend.Kind) (operation : Backend.Operation) :
      Named ('/' :: (kind.name.toList ++ '/' :: operation.name.toList)) "POST"
        (.backend kind operation)
  | job (id : List Char) (hne : id ≠ []) (hslash : '/' ∉ id) :
      Named ('/' :: ("stress".toList ++ '/' :: ("jobs".toList ++ '/' :: id))) "GET"
        (.job (String.ofList id))

/-- The path of a request, without the slashes at its end. -/
def trimmed (path : String) : List Char := withoutTrailing path.toList

/-- What the catalogue lists. -/
def Listed (p : List Char) (m : String) (r : Route) : Prop := Fixed p m r ∨ Named p m r

/-- A path that begins with one slash instead of any number of them. -/
def oneSlash (p : List Char) : List Char := '/' :: p.dropWhile (· = '/')

/-- What is found for a path: a fixed one as it stands, another with one slash instead of
    those that it begins with. -/
def Found (p : List Char) (m : String) (r : Route) : Prop := Fixed p m r ∨ Named (oneSlash p) m r

/-! ## Fixed paths -/

theorem catalogue_nodup : (catalogue.map (·.1)).Nodup := by decide +kernel

theorem lookup_iff_mem {α β : Type} [BEq α] [LawfulBEq α] {l : List (α × β)}
    (h : (l.map (·.1)).Nodup) {k : α} {v : β} : l.lookup k = some v ↔ (k, v) ∈ l := by
  induction l with
  | nil => simp
  | cons x rest ih =>
      obtain ⟨k', v'⟩ := x
      obtain ⟨hfresh, hrest⟩ := List.nodup_cons.mp h
      rw [List.lookup_cons, List.mem_cons]
      by_cases hk : k = k'
      · rw [hk, beq_self_eq_true]
        constructor
        · intro heq
          obtain rfl := Option.some.inj heq
          exact Or.inl rfl
        · rintro (heq | hmem)
          · rw [(Prod.mk.inj heq).2]
          · exact absurd (List.mem_map_of_mem hmem) hfresh
      · rw [beq_false_of_ne hk, ih hrest]
        constructor
        · exact Or.inr
        · rintro (heq | hmem)
          · exact absurd (Prod.mk.inj heq).1 hk
          · exact hmem

theorem lookup_catalogue : catalogue.lookup (String.ofList p) = some (m, r) ↔ Fixed p m r :=
  lookup_iff_mem catalogue_nodup

/-- No fixed path names a back end or a job. -/
theorem nested?_catalogue : ∀ x ∈ catalogue, nested? x.1.toList = none := by decide +kernel

/-! ## Paths that name something -/

theorem Kind.ofName?_iff {name : String} {kind : Backend.Kind} :
    Backend.Kind.ofName? name = some kind ↔ name = kind.name := by
  constructor
  · intro h
    have hname := List.find?_some h
    exact (of_decide_eq_true hname).symm
  · rintro rfl
    cases kind with
    | sql engine => cases engine <;> rfl
    | redis => rfl
    | kafka => rfl

theorem Operation.ofName?_iff {name : String} {operation : Backend.Operation} :
    Backend.Operation.ofName? name = some operation ↔ name = operation.name := by
  constructor
  · intro h
    have hname := List.find?_some h
    exact (of_decide_eq_true hname).symm
  · rintro rfl
    cases operation <;> rfl

/-- The names in a path hold no slash and are not empty. -/
theorem names_plain (kind : Backend.Kind) (operation : Backend.Operation) :
    '/' ∉ kind.name.toList ∧ '/' ∉ operation.name.toList ∧
      kind.name.toList ≠ [] ∧ operation.name.toList ≠ [] := by
  have hkind : '/' ∉ kind.name.toList ∧ kind.name.toList ≠ [] := by
    cases kind with
    | sql engine => cases engine <;> decide
    | redis => decide
    | kafka => decide
  have hoperation : '/' ∉ operation.name.toList ∧ operation.name.toList ≠ [] := by
    cases operation <;> decide
  exact ⟨hkind.1, hoperation.1, hkind.2, hoperation.2⟩

theorem ne_concat_slash (hp : withoutTrailing p = p) (front : List Char) :
    p ≠ front ++ ['/'] := by
  rintro rfl
  rw [withoutTrailing, dropRightWhile_eq, List.rdropWhile_eq_self_iff] at hp
  exact hp (by simp) (by simp)

/-- A path that names something is split into its names. -/
theorem nested?_of_named (h : Named (oneSlash p) m r) : nested? p = some (m, r) := by
  unfold oneSlash at h
  unfold nested?
  generalize p.dropWhile (· = '/') = q at h
  cases h with
  | backend kind operation =>
      obtain ⟨hkind, hoperation, -, -⟩ := names_plain kind operation
      rw [splitOn_eq_pair_iff.mpr ⟨hkind, hoperation, rfl⟩]
      simp only [String.ofList_toList, Kind.ofName?_iff.mpr rfl, Operation.ofName?_iff.mpr rfl]
      rfl
  | job id hne hslash =>
      rw [splitOn_append (by decide), splitOn_append (by decide), splitOn_of_not_mem hslash]
      exact if_pos ⟨rfl, rfl⟩

theorem named_of_nested? (hp : withoutTrailing p = p) (h : nested? p = some (m, r)) :
    Named (oneSlash p) m r := by
  have hsuffix : p.takeWhile (· = '/') ++ p.dropWhile (· = '/') = p :=
    List.takeWhile_append_dropWhile
  unfold oneSlash
  unfold nested? at h
  generalize p.dropWhile (· = '/') = q at h hsuffix
  have hjoin := joinWith_splitOn '/' q
  split at h
  · next first second id hsplit =>
      split at h
      · next hnames =>
          obtain ⟨rfl, rfl⟩ := hnames
          obtain ⟨rfl, rfl⟩ := Prod.mk.inj (Option.some.inj h)
          rw [hsplit] at hjoin
          have hq : q = "stress".toList ++ '/' :: ("jobs".toList ++ '/' :: id) := hjoin.symm
          rw [hq]
          refine .job id ?_ (not_mem_of_mem_splitOn (c := '/') (s := q) ?_)
          · -- without a name behind it the path would end in a slash
            rintro rfl
            rw [hq] at hsuffix
            refine ne_concat_slash hp (p.takeWhile (· = '/') ++ "stress/jobs".toList) ?_
            rw [List.append_assoc]
            exact hsuffix.symm
          · rw [hsplit]
            simp
      · exact nomatch h
  · next first second hsplit =>
      obtain ⟨kind, hkind, h⟩ := Option.bind_eq_some_iff.mp h
      obtain ⟨operation, hoperation, h⟩ := Option.bind_eq_some_iff.mp h
      obtain ⟨rfl, rfl⟩ := Prod.mk.inj (Option.some.inj h)
      rw [hsplit] at hjoin
      have hfirst : first = kind.name.toList := by
        rw [← Kind.ofName?_iff.mp hkind, String.toList_ofList]
      have hsecond : second = operation.name.toList := by
        rw [← Operation.ofName?_iff.mp hoperation, String.toList_ofList]
      have hq : q = kind.name.toList ++ '/' :: operation.name.toList := by
        rw [← hfirst, ← hsecond]
        exact hjoin.symm
      rw [hq]
      exact .backend kind operation
  · exact nomatch h

/-- What is found for a path without slashes at its end. -/
theorem ofPath?_iff (hp : withoutTrailing p = p) :
    ofPath? p = some (m, r) ↔ Found p m r := by
  unfold ofPath?
  cases hlookup : catalogue.lookup (String.ofList p) with
  | none =>
      rw [Option.none_or]
      constructor
      · intro h
        exact Or.inr (named_of_nested? hp h)
      · rintro (hfixed | hnamed)
        · exact absurd (hlookup.symm.trans (lookup_catalogue.mpr hfixed)) nofun
        · exact nested?_of_named hnamed
  | some x =>
      obtain ⟨m', r'⟩ := x
      rw [Option.some_or]
      constructor
      · intro h
        obtain ⟨rfl, rfl⟩ := Prod.mk.inj (Option.some.inj h)
        exact Or.inl (lookup_catalogue.mp hlookup)
      · rintro (hfixed | hnamed)
        · exact hlookup.symm.trans (lookup_catalogue.mpr hfixed)
        · have hnone := nested?_catalogue _ (lookup_catalogue.mp hlookup)
          rw [String.toList_ofList, nested?_of_named hnamed] at hnone
          exact nomatch hnone

/-! ## Slashes -/

theorem withoutTrailing_idem (p : List Char) :
    withoutTrailing (withoutTrailing p) = withoutTrailing p := by
  rw [withoutTrailing, withoutTrailing, dropRightWhile_eq, dropRightWhile_eq]
  exact List.rdropWhile_idempotent _ _

theorem withoutTrailing_append (p : List Char) {slashes : List Char}
    (h : ∀ c ∈ slashes, c = '/') : withoutTrailing (p ++ slashes) = withoutTrailing p := by
  rw [withoutTrailing, withoutTrailing, dropRightWhile_eq, dropRightWhile_eq, List.rdropWhile,
    List.rdropWhile, List.reverse_append, List.dropWhile_append_of_pos]
  intro c hc
  exact decide_eq_true (h c (List.mem_reverse.mp hc))

theorem withoutTrailing_append_self (p : List Char) (hq : withoutTrailing q = q) (hne : q ≠ []) :
    withoutTrailing (p ++ q) = p ++ q := by
  rw [withoutTrailing, dropRightWhile_eq, List.rdropWhile_eq_self_iff] at hq ⊢
  intro h
  rw [List.getLast_append_of_right_ne_nil _ _ hne]
  exact hq hne

/-- The names in a path are not empty. -/
theorem Named.nil_not_mem (h : Named ('/' :: q) m r) : [] ∉ splitOn '/' q := by
  cases h with
  | backend kind operation =>
      obtain ⟨hkind, hoperation, hkind', hoperation'⟩ := names_plain kind operation
      rw [splitOn_eq_pair_iff.mpr ⟨hkind, hoperation, rfl⟩]
      simp [hkind'.symm, hoperation'.symm]
  | job id hne hslash =>
      rw [splitOn_append (by decide), splitOn_append (by decide), splitOn_of_not_mem hslash]
      simp [hne.symm]

theorem catalogue_slashes : ∀ x ∈ catalogue, ¬ ['/', '/'] <:+: x.1.toList := by decide +kernel

theorem catalogue_first : ∀ x ∈ catalogue,
    x.1.toList = '/' :: x.1.toList.tail ∧ withoutTrailing x.1.toList = x.1.toList := by
  decide +kernel

/-- Two slashes in a row behind the first name are found nowhere. -/
theorem not_found_inner {before after : List Char} {c : Char} (hc : c ≠ '/')
    (hp : p = before ++ c :: '/' :: '/' :: after) : ¬ Found p m r := by
  rintro (hfixed | hnamed)
  · refine catalogue_slashes _ hfixed ⟨before ++ [c], after, ?_⟩
    rw [String.toList_ofList, hp]
    simp
  · refine hnamed.nil_not_mem ?_
    -- the slashes in front go, but the two in a row stay and leave an empty name
    have hkept : (c :: '/' :: '/' :: after).dropWhile (· = '/') = c :: '/' :: '/' :: after := by
      rw [List.dropWhile_cons_of_neg (by simpa using hc)]
    have hq : ∃ front, p.dropWhile (· = '/') = front ++ '/' :: '/' :: after := by
      rw [hp, List.dropWhile_append, hkept]
      split
      · exact ⟨[c], rfl⟩
      · exact ⟨before.dropWhile (· = '/') ++ [c], by simp⟩
    obtain ⟨front, hq⟩ := hq
    rw [hq, splitOn_append_cons, splitOn, if_pos rfl]
    exact List.mem_append_right _ List.mem_cons_self

/-- A fixed path behind one slash more, or several, is found nowhere. -/
theorem not_found_leading {x : String × String × Route} (hx : x ∈ catalogue) (k : Nat) :
    ¬ Found (List.replicate (k + 1) '/' ++ x.1.toList) m r := by
  obtain ⟨hfirst, htrailing⟩ := catalogue_first x hx
  rintro (hfixed | hnamed)
  · refine catalogue_slashes _ hfixed ⟨List.replicate k '/', x.1.toList.tail, ?_⟩
    rw [String.toList_ofList, List.replicate_succ']
    conv => rhs; rw [hfirst]
    simp
  · have hsame : oneSlash (List.replicate (k + 1) '/' ++ x.1.toList) = oneSlash x.1.toList := by
      unfold oneSlash
      rw [List.dropWhile_append_of_pos]
      intro c hc
      exact decide_eq_true (List.eq_of_mem_replicate hc)
    rw [hsame] at hnamed
    have hnone := nested?_catalogue x hx
    rw [nested?_of_named hnamed] at hnone
    exact nomatch hnone

/-! ## Requests -/

theorem found_unique {m' : String} {r' : Route} (hp : withoutTrailing p = p) (h : Found p m r)
    (h' : Found p m' r') : m = m' ∧ r = r' := by
  have heq := ((ofPath?_iff hp).mpr h).symm.trans ((ofPath?_iff hp).mpr h')
  exact Prod.mk.inj (Option.some.inj heq)

theorem resolve_trimmed (method path : String) :
    resolve method path = match ofPath? (trimmed path) with
      | none => .error .notFound
      | some (allowed, route) => if method = allowed then .ok route else .error .methodNotAllowed :=
  rfl

/-- What a request comes to is what is found for its path, if its method is the one
    that goes with it. -/
theorem resolve_cases (method path : String) :
    (∃ allowed route, Found (trimmed path) allowed route ∧
      resolve method path =
        if method = allowed then .ok route else .error .methodNotAllowed) ∨
    (∀ allowed route, ¬ Found (trimmed path) allowed route) ∧
      resolve method path = .error .notFound := by
  have hp : withoutTrailing (trimmed path) = trimmed path := withoutTrailing_idem path.toList
  rw [resolve_trimmed]
  cases hfound : ofPath? (trimmed path) with
  | none =>
      refine Or.inr ⟨?_, rfl⟩
      intro allowed route h
      exact absurd (hfound.symm.trans ((ofPath?_iff hp).mpr h)) nofun
  | some x => exact Or.inl ⟨x.1, x.2, (ofPath?_iff hp).mp hfound, rfl⟩

theorem resolve_notFound {path : String}
    (h : ∀ allowed route, ¬ Found (trimmed path) allowed route) :
    resolve method path = .error .notFound := by
  rcases resolve_cases method path with ⟨allowed, route, hfound, -⟩ | ⟨-, heq⟩
  · exact absurd hfound (h allowed route)
  · exact heq

/-- **A PATH IS FOUND OR NOT, AND THEN THE METHOD COUNTS.**  Slashes at the end of a
    path never count.  Two slashes in a row behind the first name are never found, and
    neither are fixed paths behind more slashes than their own; only the paths that name
    something may begin with any number of slashes. -/
theorem resolve_found (method path : String) :
    (∀ route, resolve method path = .ok route ↔ Found (trimmed path) method route) ∧
      (resolve method path = .error .methodNotAllowed ↔
        ∃ allowed route, Found (trimmed path) allowed route ∧ method ≠ allowed) ∧
      (resolve method path = .error .notFound ↔
        ∀ allowed route, ¬ Found (trimmed path) allowed route) ∧
      (∀ allowed route allowed' route', Found (trimmed path) allowed route →
        Found (trimmed path) allowed' route' → allowed = allowed' ∧ route = route') ∧
      (∀ slashes, (∀ c ∈ slashes, c = '/') →
        resolve method (path ++ String.ofList slashes) = resolve method path) ∧
      (∀ before c after, c ≠ '/' → trimmed path = before ++ c :: '/' :: '/' :: after →
        resolve method path = .error .notFound) ∧
      (∀ x ∈ catalogue, ∀ k, path = String.ofList (List.replicate (k + 1) '/') ++ x.1 →
        resolve method path = .error .notFound) ∧
      catalogue.length = 27 ∧ (catalogue.map (·.1)).Nodup := by
  have hp : withoutTrailing (trimmed path) = trimmed path := withoutTrailing_idem path.toList
  refine ⟨?_, ?_, ?_, fun _ _ _ _ => found_unique hp, ?_, ?_, ?_, rfl, catalogue_nodup⟩
  · intro route
    rcases resolve_cases method path with ⟨allowed, route', hfound, heq⟩ | ⟨hnone, heq⟩
    · rw [heq]
      constructor
      · intro h
        split at h
        · next hmethod =>
            obtain rfl := Except.ok.inj h
            exact hmethod ▸ hfound
        · exact nomatch h
      · intro h
        obtain ⟨rfl, rfl⟩ := found_unique hp h hfound
        rw [if_pos rfl]
    · rw [heq]
      constructor
      · intro h
        exact nomatch h
      · intro h
        exact absurd h (hnone method route)
  · rcases resolve_cases method path with ⟨allowed, route, hfound, heq⟩ | ⟨hnone, heq⟩
    · rw [heq]
      constructor
      · intro h
        split at h
        · exact nomatch h
        · next hmethod => exact ⟨allowed, route, hfound, hmethod⟩
      · rintro ⟨allowed', route', hfound', hmethod⟩
        obtain ⟨rfl, -⟩ := found_unique hp hfound hfound'
        rw [if_neg hmethod]
    · rw [heq]
      constructor
      · intro h
        exact nomatch h
      · rintro ⟨allowed, route, hfound, -⟩
        exact absurd hfound (hnone allowed route)
  · constructor
    · intro h
      rcases resolve_cases method path with ⟨allowed, route, -, heq⟩ | ⟨hnone, -⟩
      · rw [heq] at h
        split at h
        · exact nomatch h
        · exact nomatch h
      · exact hnone
    · exact resolve_notFound
  · intro slashes hslashes
    rw [resolve, String.toList_append, String.toList_ofList, withoutTrailing_append _ hslashes]
    rfl
  · intro before c after hc hinner
    exact resolve_notFound fun _ _ => not_found_inner hc hinner
  · intro x hx k hpath
    refine resolve_notFound fun allowed route => ?_
    obtain ⟨hfirst, htrailing⟩ := catalogue_first x hx
    have hlist : trimmed path = List.replicate (k + 1) '/' ++ x.1.toList := by
      rw [trimmed, hpath, String.toList_append, String.toList_ofList]
      refine withoutTrailing_append_self _ htrailing ?_
      rw [hfirst]
      exact List.cons_ne_nil _ _
    rw [hlist]
    exact not_found_leading hx k

/-- Slashes between names, before a fixed path, at the end, and before a job. -/
theorem resolve_found_slashes :
    resolve "POST" "/stress//cpu" = .error .notFound ∧
      resolve "POST" "//stress/cpu" = .error .notFound ∧
      resolve "GET" "/simple//" = resolve "GET" "/simple" ∧
      resolve "GET" "//stress/jobs/x" = .ok (.job "x") := by
  refine ⟨?_, ?_, ?_, ?_⟩
  · exact (resolve_found "POST" "/stress//cpu").2.2.2.2.2.1 "/stres".toList 's' "cpu".toList
      (by decide) (by decide)
  · exact (resolve_found "POST" "//stress/cpu").2.2.2.2.2.2.1 ("/stress/cpu", "POST", .cpu)
      List.mem_cons_self 0 (by decide)
  · exact (resolve_found "GET" "/simple").2.2.2.2.1 ['/', '/'] (by simp)
  · refine ((resolve_found "GET" "//stress/jobs/x").1 (.job "x")).mpr (Or.inr ?_)
    exact Named.job ['x'] (by decide) (by decide)

/-- A path with two slashes in front is not listed, and yet a job is looked for. -/
theorem resolve_unlisted :
    ¬ (resolve "GET" "//stress/jobs/x" = .error .notFound ↔
      ∀ allowed route, ¬ Listed (trimmed "//stress/jobs/x") allowed route) := by
  intro hiff
  have hfound : resolve "GET" "//stress/jobs/x" = .ok (.job "x") := by decide +kernel
  have hnone := hiff.mpr ?_
  · rw [hfound] at hnone
    exact nomatch hnone
  · have hp : trimmed "//stress/jobs/x" = "//stress/jobs/x".toList := by decide +kernel
    rw [hp]
    rintro allowed route (hfixed | hnamed)
    · refine catalogue_slashes _ hfixed ⟨[], "stress/jobs/x".toList, ?_⟩
      exact String.toList_ofList.symm
    · have hslash : Named ('/' :: "/stress/jobs/x".toList) allowed route := hnamed
      exact hslash.nil_not_mem (by decide)

end Havoc.Service.Route
