import CallImpact.Registry
import CallImpact.Proofs.Text.Case

/-!
# One repository has one identity

A repository can be addressed in several forms (`IsAddressOf`), with several endings (`IsEnding`),
and in any letter case. The normal form of all these addresses is the same: what is lowered stays
an address of the same form (`IsAddressOf.lowercase`), its scheme and its user are cut off
(`IsAddressOf.bare`), and so is the ending (`withoutEnding_append`). Separators inside the path do
not matter, since each step cuts before the path. Therefore one repository has one identifier, and
is found in the registry however its address is written (`identity_of_address`).
-/

namespace CallImpact

open Text

/-! ## Addresses -/

/-- Whether a text can be the scheme, the user or the host of an address. -/
def IsLabel (s : String) : Prop :=
  ∀ c ∈ s.toList, c ∉ ['/', ':', '@']

instance (s : String) : Decidable (IsLabel s) :=
  decidable_of_iff (s.toList.all fun c => decide (c ∉ ['/', ':', '@'])) (by simp [IsLabel])

/-- Whether a text can be the path of a repository on its host. -/
structure IsRepositoryPath (path : String) : Prop where
  not_empty : path ≠ ""
  start : ¬ startsWith path "/"
  finish : path.toList.getLast? ≠ some '/' ∧ path.toList.getLast? ≠ some ':'
  no_scheme : ¬ contains path "://"

/-- The forms of the address of a path on a host. -/
inductive IsAddressOf (host path : String) : String → Prop where
  | url {scheme : String} : IsLabel scheme →
      IsAddressOf host path (scheme ++ "://" ++ (host ++ "/" ++ path))
  | userUrl {scheme user : String} : IsLabel scheme → IsLabel user →
      IsAddressOf host path (scheme ++ "://" ++ (user ++ "@" ++ (host ++ "/" ++ path)))
  | userHost {user : String} : IsLabel user →
      IsAddressOf host path (user ++ "@" ++ host ++ ":" ++ path)
  | host : IsAddressOf host path (host ++ ":" ++ path)

/-- Whether a text has no blanks, and no capital sigma, of which the lower-case form depends on its
place; no ASCII text has one. -/
def IsSteady (s : String) : Prop :=
  ∀ c ∈ s.toList, isBlank c = false ∧ c ≠ '\u03A3'

instance (s : String) : Decidable (IsSteady s) :=
  decidable_of_iff (s.toList.all fun c => decide (isBlank c = false ∧ c ≠ '\u03A3'))
    (by simp [IsSteady])

/-- An ASCII text is steady exactly when it has no blanks. -/
theorem isSteady_iff_of_ascii {s : String} (h : ∀ c ∈ s.toList, c.toNat < 128) :
    IsSteady s ↔ ∀ c ∈ s.toList, isBlank c = false := by
  refine forall₂_congr fun c hc => and_iff_left ?_
  rintro rfl
  exact absurd (h _ hc) (by decide)

/-- The endings of an address: slashes, with or without `.git` before them. -/
def IsEnding (ending : String) : Prop :=
  ∃ n, ending.toList = List.replicate n '/' ∨ ending.toList = ".git".toList ++ List.replicate n '/'

/-- Whether a text is an address of the repository at a path of a host: in one of the forms, with
one of the endings, and in any letter case. -/
def Locates (host path url : String) : Prop :=
  ∃ address ending, IsAddressOf host path address ∧ IsSteady address ∧ IsEnding ending ∧
    SameLetters (address ++ ending) url

section
variable {host path address ending url : String}

/-! ## Cutting the scheme and the user -/

/-- A scheme without a slash is taken off with its separator. -/
theorem withoutScheme_url {scheme : String} (h : '/' ∉ scheme.toList) (rest : String) :
    withoutScheme (scheme ++ "://" ++ rest) = rest := by
  rw [withoutScheme, cut?_append_of_not_mem rfl (by decide) h]

/-- No scheme is found in an address without one. -/
theorem not_contains_scheme {front : String} (hcolon : ':' ∉ front.toList)
    (hstart : ¬ startsWith path "/") (hnone : ¬ contains path "://") :
    ¬ contains (front ++ ":" ++ path) "://" := by
  rw [contains_iff] at hnone ⊢
  rw [startsWith_iff] at hstart
  rintro ⟨a, b, hab⟩
  have hslash : path.toList ≠ '/' :: '/' :: b := fun heq => hstart ⟨'/' :: b, heq.symm⟩
  have hlist : a ++ ':' :: ('/' :: '/' :: b) = front.toList ++ ':' :: path.toList := by
    simpa using hab
  -- the colon that is found is the one after the host, or one of the path
  rcases List.append_eq_append_iff.mp hlist with ⟨more, hfront, hrest⟩ | ⟨more, -, hrest⟩
  · cases more with
    | nil => exact hslash (List.cons.inj hrest).2.symm
    | cons c more =>
      obtain ⟨rfl, -⟩ := List.cons.inj hrest
      exact hcolon (by simp [hfront])
  · cases more with
    | nil => exact hslash (List.cons.inj hrest).2
    | cons c more =>
      obtain ⟨-, hpath⟩ := List.cons.inj hrest
      exact hnone ⟨more, b, by simp [hpath]⟩

/-- A path after the colon of a host comes after a slash instead. -/
theorem withoutScheme_host {front : String} (hcolon : ':' ∉ front.toList)
    (hslash : '/' ∉ front.toList) (hstart : ¬ startsWith path "/") (hnone : ¬ contains path "://") :
    withoutScheme (front ++ ":" ++ path) = front ++ "/" ++ path := by
  have hscheme : cut? "://" (front ++ ":" ++ path) = none := by
    rw [cut?_eq_none_iff, ← contains_iff]
    exact not_contains_scheme hcolon hstart hnone
  have hplain : ¬ contains front "/" := by rwa [contains_iff_mem (c := '/') rfl]
  have htrim : path.toList.dropWhile (· = '/') = path.toList := by
    cases hpath : path.toList with
    | nil => rfl
    | cons c rest =>
      refine List.dropWhile_cons_of_neg fun hc => hstart ?_
      rw [startsWith_iff, hpath, of_decide_eq_true hc]
      exact ⟨rest, rfl⟩
  rw [withoutScheme, hscheme, cut?_append rfl hcolon]
  simp only [hplain, trimStartChars, htrim, String.ofList_toList]
  rfl

/-- A user without an at sign or a slash is taken off with its separator. -/
theorem withoutUser_user {user : String} (hat : '@' ∉ user.toList) (hslash : '/' ∉ user.toList)
    (rest : String) : withoutUser (user ++ "@" ++ rest) = rest := by
  have hplain : ¬ contains user "/" := by rwa [contains_iff_mem (c := '/') rfl]
  rw [withoutUser, cut?_append rfl hat]
  exact if_neg hplain

/-- What stands before an `@` in the path has a slash, so it is no user. -/
theorem withoutUser_host (h : '@' ∉ host.toList) (path : String) :
    withoutUser (host ++ "/" ++ path) = host ++ "/" ++ path := by
  cases hcut : cut? "@" (host ++ "/" ++ path) with
  | none => rw [withoutUser, hcut]
  | some sides =>
    obtain ⟨user, rest⟩ := sides
    have hlist : host.toList ++ '/' :: path.toList = user.toList ++ '@' :: rest.toList := by
      have heq := congrArg String.toList (eq_of_cut? hcut)
      simpa using heq
    have hslash : contains user "/" := by
      rw [contains_iff_mem (c := '/') rfl]
      rcases List.append_eq_append_iff.mp hlist with ⟨more, huser, hrest⟩ | ⟨more, hhost, hrest⟩
      · cases more with
        | nil => cases (List.cons.inj hrest).1
        | cons c more =>
          obtain ⟨rfl, -⟩ := List.cons.inj hrest
          simp [huser]
      · cases more with
        | nil => cases (List.cons.inj hrest).1
        | cons c more =>
          obtain ⟨rfl, -⟩ := List.cons.inj hrest
          exact absurd (by simp [hhost]) h
    rw [withoutUser, hcut]
    exact if_pos hslash

/-- Without its scheme and its user, an address is a path below a host. -/
theorem IsAddressOf.bare (h : IsAddressOf host path url) (hhost : IsLabel host)
    (hstart : ¬ startsWith path "/") (hnone : ¬ contains path "://") :
    withoutUser (withoutScheme url) = host ++ "/" ++ path := by
  have hnot : ∀ {s : String} {c : Char}, IsLabel s → c ∈ ['/', ':', '@'] → c ∉ s.toList :=
    fun hs hc hmem => hs _ hmem hc
  cases h with
  | url hscheme =>
    rw [withoutScheme_url (hnot hscheme (by decide)), withoutUser_host (hnot hhost (by decide))]
  | userUrl hscheme huser =>
    rw [withoutScheme_url (hnot hscheme (by decide)), withoutUser_user (hnot huser (by decide))
      (hnot huser (by decide))]
  | @userHost user huser =>
    have hfront : ∀ c ∈ ['/', ':'], c ∉ (user ++ "@" ++ host).toList := by
      intro c hc hmem
      have hsep : c ∈ ['/', ':', '@'] := List.mem_append_left ['@'] hc
      have hat : c ≠ '@' := by
        rintro rfl
        exact absurd hc (by decide)
      simp only [String.toList_append, List.mem_append] at hmem
      rcases hmem with (hmem | hmem) | hmem
      · exact hnot huser hsep hmem
      · exact hat (List.mem_singleton.mp hmem)
      · exact hnot hhost hsep hmem
    have hassoc : user ++ "@" ++ host ++ "/" ++ path = user ++ "@" ++ (host ++ "/" ++ path) := by
      simp only [String.append_assoc]
    rw [withoutScheme_host (hfront ':' (by decide)) (hfront '/' (by decide)) hstart hnone, hassoc,
      withoutUser_user (hnot huser (by decide)) (hnot huser (by decide))]
  | host =>
    rw [withoutScheme_host (hnot hhost (by decide)) (hnot hhost (by decide)) hstart hnone,
      withoutUser_host (hnot hhost (by decide))]

/-! ## Endings -/

/-- The endings that a remote may have are spelled with six characters only. -/
theorem IsEnding.mem (h : IsEnding ending) :
    ∀ c ∈ ending.toList, c ∈ ['/', '.', 'g', 'i', 't'] := by
  intro c hc
  obtain ⟨n, h | h⟩ := h
  · rw [h] at hc
    simp [List.eq_of_mem_replicate hc]
  · rw [h] at hc
    rcases List.mem_append.mp hc with hc | hc
    · exact List.mem_cons_of_mem _ hc
    · simp [List.eq_of_mem_replicate hc]

/-- A text without ending is what remains when its ending is cut off. -/
theorem withoutEnding_append {bare : String} (hending : IsEnding ending)
    (hslash : bare.toList.getLast? ≠ some '/') (hsuffix : ¬ endsWith bare ".git") :
    trimEndChars (· = '/') ((before? ".git" (trimEndChars (· = '/') (bare ++ ending))).getD
      (trimEndChars (· = '/') (bare ++ ending))) = bare := by
  have htrim : ∀ {s : String} (n : Nat), s.toList.getLast? ≠ some '/' →
      dropTailWhile (· = '/') (s.toList ++ List.replicate n '/') = s.toList := by
    intro s n hs
    rw [dropTailWhile_append s.toList (by simp), dropTailWhile_eq_self]
    intro c hc
    exact decide_eq_false fun heq => hs (heq ▸ hc)
  have hbare : trimEndChars (· = '/') bare = bare := by
    have h := htrim 0 hslash
    rw [List.replicate_zero, List.append_nil] at h
    rw [trimEndChars, h, String.ofList_toList]
  obtain ⟨n, h | h⟩ := hending
  · have hnone : before? ".git" bare = none := by
      rwa [endsWith, Option.not_isSome_iff_eq_none] at hsuffix
    have hcut : trimEndChars (· = '/') (bare ++ ending) = bare := by
      rw [trimEndChars, String.toList_append, h, htrim n hslash, String.ofList_toList]
    rw [hcut, hnone, Option.getD_none, hbare]
  · have hgit : (bare ++ ".git").toList.getLast? ≠ some '/' := by simp
    have hcut : trimEndChars (· = '/') (bare ++ ending) = bare ++ ".git" := by
      rw [trimEndChars, String.toList_append, h, ← List.append_assoc, ← String.toList_append,
        htrim n hgit, String.ofList_toList]
    rw [hcut, before?_append, Option.getD_some, hbare]

/-- An address with an ending is an address of the path with the ending. -/
theorem IsAddressOf.append (h : IsAddressOf host path url) (ending : String) :
    IsAddressOf host (path ++ ending) (url ++ ending) := by
  cases h with
  | url hscheme =>
    simpa only [String.append_assoc] using IsAddressOf.url hscheme
  | userUrl hscheme huser =>
    simpa only [String.append_assoc] using IsAddressOf.userUrl hscheme huser
  | userHost huser => simpa only [String.append_assoc] using IsAddressOf.userHost huser
  | host => simpa only [String.append_assoc] using IsAddressOf.host

namespace IsRepositoryPath

/-- The path of a repository starts a text as it starts itself. -/
theorem not_startsWith_append (h : IsRepositoryPath path) (ending : String) :
    ¬ startsWith (path ++ ending) "/" := by
  have hstart := h.start
  rw [startsWith_iff] at hstart ⊢
  rintro ⟨rest, hrest⟩
  have hlist : path.toList ++ ending.toList = '/' :: rest := by simpa using hrest.symm
  rcases List.append_eq_cons_iff.mp hlist with ⟨hnil, -⟩ | ⟨more, hpath, -⟩
  · exact h.not_empty (String.toList_eq_nil_iff.mp hnil)
  · exact hstart ⟨more, hpath.symm⟩

/-- The path of a repository with an ending has no scheme either. -/
theorem not_contains_append (h : IsRepositoryPath path) (hending : IsEnding ending) :
    ¬ contains (path ++ ending) "://" := by
  have hcolon : ':' ∉ ending.toList := fun hmem => absurd (hending.mem ':' hmem) (by decide)
  have hnone := h.no_scheme
  rw [contains_iff] at hnone ⊢
  rintro ⟨a, b, hab⟩
  have hlist : a ++ ':' :: ('/' :: '/' :: b) = path.toList ++ ending.toList := by
    simpa using hab
  rcases List.append_eq_append_iff.mp hlist with ⟨more, hpath, hrest⟩ | ⟨more, -, hrest⟩
  · -- the path does not end within the separator
    rcases more with _ | ⟨c, _ | ⟨d, _ | ⟨e, more⟩⟩⟩
    · exact hcolon (by rw [← List.nil_append ending.toList, ← hrest]; exact List.mem_cons_self)
    · obtain ⟨rfl, -⟩ := by simpa using hrest
      exact h.finish.2 (by simp [hpath])
    · obtain ⟨rfl, rfl, -⟩ := by simpa using hrest
      exact h.finish.1 (by simp [hpath])
    · obtain ⟨rfl, rfl, rfl, -⟩ := by simpa using hrest
      exact hnone ⟨a, more, by simp [hpath]⟩
  · exact hcolon (by simp [hrest])

/-- The path of a repository ends an address as it ends itself. -/
theorem getLast?_append (h : IsRepositoryPath path) (front : String) :
    (front ++ path).toList.getLast? = path.toList.getLast? := by
  have hne : path.toList ≠ [] := mt String.toList_eq_nil_iff.mp h.not_empty
  rw [String.toList_append, List.getLast?_append_of_ne_nil _ hne]

end IsRepositoryPath

/-- The ending `.git` does not reach beyond a slash. -/
theorem endsWith_of_endsWith_host (h : endsWith (host ++ "/" ++ path) ".git") :
    endsWith path ".git" := by
  rw [endsWith_iff] at h ⊢
  have hpath : '/' :: path.toList <:+ (host ++ "/" ++ path).toList := ⟨host.toList, by simp⟩
  rcases List.suffix_or_suffix_of_suffix h hpath with hsuffix | hsuffix
  · rcases List.suffix_cons_iff.mp hsuffix with heq | hsuffix
    · cases (List.cons.inj heq).1
    · exact hsuffix
  · exact absurd (hsuffix.subset List.mem_cons_self) (by decide)

/-! ## Letter case -/

section
variable {s t : String}

/-- A text in two parts is steady exactly when both parts are. -/
theorem isSteady_append_iff : IsSteady (s ++ t) ↔ IsSteady s ∧ IsSteady t := by
  simp only [IsSteady, String.toList_append, List.forall_mem_append]

/-- A steady text has no capital sigma, whose lower case depends on what surrounds it. -/
theorem IsSteady.not_mem_sigma (h : IsSteady s) : '\u03A3' ∉ s.toList :=
  fun hmem => (h _ hmem).2 rfl

/-- A steady text in two parts is lowered part by part. -/
theorem lowercase_append_of_isSteady (h : IsSteady (s ++ t)) :
    lowercase (s ++ t) = lowercase s ++ lowercase t :=
  lowercase_append (isSteady_append_iff.mp h).1.not_mem_sigma
    (isSteady_append_iff.mp h).2.not_mem_sigma

/-- The lower case of a steady label is a label. -/
theorem IsLabel.lowercase (h : IsLabel s) (hs : IsSteady s) : IsLabel (lowercase s) :=
  fun c hc hsep =>
    h c ((mem_lowercase hs.not_mem_sigma (isUncased_of_isSeparator hsep)).mp hc) hsep

end

/-- The lower case of a steady address is an address of the lower case of its host and path. -/
theorem IsAddressOf.lowercase (h : IsAddressOf host path url) (hs : IsSteady url) :
    IsAddressOf (Text.lowercase host) (Text.lowercase path) (Text.lowercase url) := by
  have hscheme : Text.lowercase "://" = "://" := by decide +kernel
  have hat : Text.lowercase "@" = "@" := by decide +kernel
  have hcolon : Text.lowercase ":" = ":" := by decide +kernel
  have hslash : Text.lowercase "/" = "/" := by decide +kernel
  cases h with
  | url hlabel =>
    simp only [isSteady_append_iff] at hs
    simp only [lowercase_append_of_isSteady, isSteady_append_iff, hs, and_self, hscheme, hslash]
    exact .url (hlabel.lowercase hs.1.1)
  | userUrl hlabel huser =>
    simp only [isSteady_append_iff] at hs
    simp only [lowercase_append_of_isSteady, isSteady_append_iff, hs, and_self,
      hscheme, hat, hslash]
    exact .userUrl (hlabel.lowercase hs.1.1) (huser.lowercase hs.2.1.1)
  | userHost huser =>
    simp only [isSteady_append_iff] at hs
    simp only [lowercase_append_of_isSteady, isSteady_append_iff, hs, and_self, hat, hcolon]
    exact .userHost (huser.lowercase hs.1.1.1.1)
  | host =>
    simp only [isSteady_append_iff] at hs
    simp only [lowercase_append_of_isSteady, isSteady_append_iff, hs, and_self, hcolon]
    exact .host

/-- The lower case of a steady repository path is a repository path. -/
theorem IsRepositoryPath.lowercase (h : IsRepositoryPath path) (hs : IsSteady path) :
    IsRepositoryPath (Text.lowercase path) := by
  have hsigma := hs.not_mem_sigma
  have hslash : IsUncased '/' := isUncased_of_isSeparator (by decide)
  have hcolon : IsUncased ':' := isUncased_of_isSeparator (by decide)
  exact
    { not_empty := mt (lowercase_eq_empty_iff hsigma).mp h.not_empty
      start := mt (startsWith_of_lowercase hsigma (by simpa using hslash)) h.start
      finish := ⟨mt (getLast?_of_lowercase hsigma hslash) h.finish.1,
        mt (getLast?_of_lowercase hsigma hcolon) h.finish.2⟩
      no_scheme := mt (contains_of_lowercase hsigma (by simp [hslash, hcolon])) h.no_scheme }

/-! ## One identity -/

/-- An ending is of small characters without blanks. -/
theorem IsEnding.small (h : IsEnding ending) :
    ∀ c ∈ ending.toList, c ≠ '\u03A3' ∧ lowerChar c = [c] ∧ isBlank c = false := by
  intro c hc
  have hmem := h.mem c hc
  simp only [List.mem_cons, List.not_mem_nil, or_false] at hmem
  rcases hmem with rfl | rfl | rfl | rfl | rfl
  all_goals decide +kernel

/-- The endings that a remote may have are in lower case already. -/
theorem IsEnding.lowercase_eq (h : IsEnding ending) : Text.lowercase ending = ending :=
  lowercase_eq_self fun c hc => ⟨(h.small c hc).1, (h.small c hc).2.1⟩

/-- The endings that a remote may have are steady. -/
theorem IsEnding.isSteady (h : IsEnding ending) : IsSteady ending :=
  fun c hc => ⟨(h.small c hc).2.2, (h.small c hc).1⟩

/-- Host and path of an address without blanks have none either. -/
theorem IsAddressOf.isSteady (h : IsAddressOf host path url) (hs : IsSteady url) :
    IsSteady host ∧ IsSteady path := by
  cases h with
  | url _ =>
    simp only [isSteady_append_iff] at hs
    exact ⟨hs.2.1.1, hs.2.2⟩
  | userUrl _ _ =>
    simp only [isSteady_append_iff] at hs
    exact ⟨hs.2.2.1.1, hs.2.2.2⟩
  | userHost _ =>
    simp only [isSteady_append_iff] at hs
    exact ⟨hs.1.1.2, hs.2⟩
  | host =>
    simp only [isSteady_append_iff] at hs
    exact ⟨hs.1.1, hs.2⟩

/-- The normal form of every address of a repository is its host and its path in lower case. -/
theorem normalizeRemote_eq (h : Locates host path url) (hhost : IsLabel host)
    (hpath : IsRepositoryPath path) (hsuffix : ¬ endsWith (lowercase path) ".git") :
    normalizeRemote url = lowercase host ++ "/" ++ lowercase path := by
  obtain ⟨address, ending, haddress, hsteady, hending, hsame⟩ := h
  obtain ⟨hhostSteady, hpathSteady⟩ := haddress.isSteady hsteady
  have hwhole : IsSteady (address ++ ending) := isSteady_append_iff.mpr ⟨hsteady, hending.isSteady⟩
  have htrim : trim url = url := trim_of_not_blank (hsame.not_blank fun c hc => (hwhole c hc).1)
  have hlower : lowercase url = lowercase address ++ ending := by
    rw [hsame.lowercase_congr hwhole.not_mem_sigma, lowercase_append_of_isSteady hwhole,
      hending.lowercase_eq]
  have hpath' := hpath.lowercase hpathSteady
  have hbare : withoutUser (withoutScheme (lowercase url)) =
      (lowercase host ++ "/" ++ lowercase path) ++ ending := by
    rw [hlower, ((haddress.lowercase hsteady).append ending).bare (hhost.lowercase hhostSteady)
      (hpath'.not_startsWith_append ending) (hpath'.not_contains_append hending)]
    exact String.append_assoc.symm
  rw [normalizeRemote, htrim, hbare]
  refine withoutEnding_append hending ?_ (mt endsWith_of_endsWith_host hsuffix)
  rw [hpath'.getLast?_append]
  exact hpath'.finish.1

/-- However the address of a repository is written, the project has one identifier, and is found
in a registry where it is entered under another address of the repository. The scheme, user, host
and path may hold any characters but blanks and the capital sigma (`IsSteady`), so every ASCII
address without blanks is covered (`isSteady_iff_of_ascii`), in any letter case and with any of
the endings. -/
theorem identity_of_address (hhost : IsLabel host) (hpath : IsRepositoryPath path)
    (hsuffix : ¬ endsWith (lowercase path) ".git") (hurl : Locates host path url) :
    normalizeRemote url = lowercase host ++ "/" ++ lowercase path ∧
      (ProjectIdentity.ofRemote url).id = projectId (lowercase host ++ "/" ++ lowercase path) ∧
      ∀ r : Registry, (∃ p ∈ r.projects, ∃ other ∈ p.remote, Locates host path other) →
        ∃ p ∈ r.projects, r.findByRemote? url = some p ∧
          ∃ other ∈ p.remote, normalizeRemote other = lowercase host ++ "/" ++ lowercase path := by
  have hnormal := normalizeRemote_eq hurl hhost hpath hsuffix
  refine ⟨hnormal, congrArg projectId hnormal, ?_⟩
  rintro r ⟨p, hp, other, hother, hlocates⟩
  have hsome : (r.findByRemote? url).isSome := by
    rw [Registry.findByRemote?, List.find?_isSome]
    refine ⟨p, hp, (Option.any_eq_true _ _).mpr ⟨other, hother, ?_⟩⟩
    rw [normalizeRemote_eq hlocates hhost hpath hsuffix, hnormal, beq_self_eq_true]
  obtain ⟨found, hfound⟩ := Option.isSome_iff_exists.mp hsome
  have hany : found.remote.any fun u => normalizeRemote u == normalizeRemote url := by
    simpa using List.find?_some hfound
  obtain ⟨remote, hremote, heq⟩ := (Option.any_eq_true _ _).mp hany
  exact ⟨found, List.mem_of_find?_eq_some hfound, hfound, remote, hremote,
    (eq_of_beq heq).trans hnormal⟩

end

/-- A registry with a project that is entered under a short address with a slash too many. -/
def shortlyEntered : Registry where
  projects := [{ id := "p", name := "api", remote := some "github.com:acme/api@2/"
                 created := default, updated := default }]

/-- The case of a remote with a scheme, a user, capitals and an ending, entered before in its short
form. -/
theorem identity_of_address_shortlyEntered :
    normalizeRemote "SSH://Git@GitHub.com/Acme/API@2.git//" =
        lowercase "github.com" ++ "/" ++ lowercase "acme/api@2" ∧
      (ProjectIdentity.ofRemote "SSH://Git@GitHub.com/Acme/API@2.git//").id =
        projectId (lowercase "github.com" ++ "/" ++ lowercase "acme/api@2") ∧
      ∃ p ∈ shortlyEntered.projects,
        shortlyEntered.findByRemote? "SSH://Git@GitHub.com/Acme/API@2.git//" = some p := by
  have hpath : IsRepositoryPath "acme/api@2" :=
    ⟨by decide, by decide, by decide, by decide +kernel⟩
  have hurl : Locates "github.com" "acme/api@2" "SSH://Git@GitHub.com/Acme/API@2.git//" :=
    ⟨_, ".git//", @IsAddressOf.userUrl _ _ "ssh" "git" (by decide) (by decide), by decide +kernel,
      ⟨2, .inr rfl⟩, by decide +kernel⟩
  have hother : Locates "github.com" "acme/api@2" "github.com:acme/api@2/" :=
    ⟨_, "/", .host, by decide +kernel, ⟨1, .inl rfl⟩, by decide +kernel⟩
  obtain ⟨hnormal, hid, hfind⟩ :=
    identity_of_address (by decide) hpath (by decide +kernel) hurl
  obtain ⟨p, hp, hfound, -⟩ := hfind shortlyEntered
    ⟨_, List.mem_singleton_self _, _, rfl, hother⟩
  exact ⟨hnormal, hid, p, hp, hfound⟩

end CallImpact
