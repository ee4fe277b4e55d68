import Mathlib.Data.List.Lex
import Mathlib.Data.Prod.Lex
import Solo.Lib.StableSort
import Solo.Lib.Text

/-!
# Which release the updater offers (`evaluate`)

The candidate is the usable release with the greatest `version_key`, the first of them in list
order. Whether it is offered is decided by the key of the running build's tag where that tag is
listed. Where it is not, any package whose file name does not spell the running version counts as an
update, so an older one is offered too, and of several candidates with one key it depends on the
list order.
-/

namespace Solo

open StableSort

namespace Update

inductive UpdateChannel where
  | community
  | pro
  deriving DecidableEq

inductive Platform where
  | windows
  | linux
  | unsupported
  deriving DecidableEq

structure GhAsset where
  name : String
  size : Nat
  browserDownloadUrl : String
  deriving DecidableEq

structure GhRelease where
  tagName : String
  name : Option String
  body : Option String
  publishedAt : Option String
  prerelease : Bool
  draft : Bool
  htmlUrl : String
  assets : List GhAsset
  deriving DecidableEq

structure AvailableRelease where
  tag : String
  name : String
  notes : String
  publishedAt : String
  prerelease : Bool
  htmlUrl : String
  assetName : String
  assetSize : Nat
  canAutoInstall : Bool
  deriving DecidableEq

/-- The running binary. -/
structure Build where
  platform : Platform
  nativeChannel : UpdateChannel
  version : String
  buildRef : Option String

def releasePageSize : Nat := 30

/-! ### Packages and tags -/

def endsWith (cs : List Char) (suf : String) : Bool := suf.toList.isSuffixOf cs

/-- `strip_suffix`. -/
def stripSuffix? (cs : List Char) (suf : String) : Option (List Char) :=
  if endsWith cs suf then some (cs.take (cs.length - suf.toList.length)) else none

def nonCommunityMarkers : List String := ["-pro-", "-team-", "-enterprise-", "-business-"]

def proMarker : String := "-pro-"

def isCommunityAsset (name : String) : Bool :=
  !nonCommunityMarkers.any fun marker => Text.contains (Text.toAsciiLowercase name.toList) marker

def UpdateChannel.acceptsAsset (channel : UpdateChannel) (name : String) : Bool :=
  match channel with
  | .community => isCommunityAsset name
  | .pro => Text.contains (Text.toAsciiLowercase name.toList) proMarker

def UpdateChannel.label : UpdateChannel → String
  | .community => "Solo Community"
  | .pro => "Solo Pro"

def isSuperseded (release : GhRelease) : Bool :=
  Text.contains (Text.toAsciiLowercase (release.name.getD "").toList) "supersed"

def platformAsset (platform : Platform) (channel : UpdateChannel) (assets : List GhAsset) :
    Option GhAsset :=
  match platform with
  | .windows => assets.find? fun a =>
      endsWith a.name.toList ".exe" && Text.contains a.name.toList "x86_64" &&
        channel.acceptsAsset a.name
  | .linux => assets.find? fun a =>
      endsWith a.name.toList ".deb" && Text.contains a.name.toList "amd64" &&
        channel.acceptsAsset a.name
  | .unsupported => none

def canAutoInstall (platform : Platform) : Bool := platform = .windows

def platformLabel : Platform → String
  | .windows => "windows-x86_64"
  | .linux => "linux-amd64"
  | .unsupported => "unsupported"

/-- The number a run of digits stands for. -/
def decimal (digits : List Char) : Nat := digits.foldl (fun n c => 10 * n + (c.toNat - '0'.toNat)) 0

/-- `digits.parse::<u64>().unwrap_or(0)`. -/
def parseU64OrZero (digits : List Char) : Nat :=
  if decimal digits < 2 ^ 64 then decimal digits else 0

/-- One turn of the loop of `version_key`: the parts so far, and the digits of the next one. -/
def pushChar (parse : List Char → Nat) (st : List Nat × List Char) (c : Char) :
    List Nat × List Char :=
  if c.isDigit then (st.1, st.2 ++ [c])
  else if st.2.isEmpty then st
  else (st.1 ++ [parse st.2], [])

/-- The numbers in a tag, each run of digits read by `parse`. -/
def tagNumbers (parse : List Char → Nat) (tag : String) : List Nat :=
  let st := tag.toList.foldl (pushChar parse) ([], [])
  if st.2.isEmpty then st.1 else st.1 ++ [parse st.2]

def versionKey (tag : String) : List Nat := tagNumbers parseU64OrZero tag

/-- The version a tag names: its numbers, of any size. -/
def version (tag : String) : List Nat := tagNumbers decimal tag

/-- A double-digit build sorts above a single-digit one. -/
example : versionKey "v0.13.0-pro.9" < versionKey "v0.13.0-pro.10" := by decide +kernel

def assetVersion (assetName : String) : Option String :=
  let cs := assetName.toList
  let stem? :=
    ((Text.stripPrefix? cs "SoloSetup-").bind fun rest => stripSuffix? rest "-x86_64.exe").or
      ((Text.stripPrefix? cs "solo-").bind fun rest => stripSuffix? rest "-ubuntu24.04-amd64.deb")
  stem?.bind fun stem =>
    let stem := (Text.stripPrefix? stem "pro-").getD stem
    if stem.isEmpty then none else some (String.ofList stem)

/-! ### The decision -/

/-- The releases that can be installed here, with their packages and their places in the listing. -/
def usable (platform : Platform) (channel : UpdateChannel) (releases : List GhRelease) :
    List (Nat × GhRelease × GhAsset) :=
  (releases.zipIdx.filter fun x => !x.1.draft && !isSuperseded x.1).filterMap fun x =>
    (platformAsset platform channel x.1.assets).map fun a => (x.2, x.1, a)

def usableKey (x : Nat × GhRelease × GhAsset) : (List Nat)ᵒᵈ ×ₗ Nat :=
  toLex (OrderDual.toDual (versionKey x.2.1.tagName), x.1)

def availableRelease (platform : Platform) (release : GhRelease) (asset : GhAsset) :
    AvailableRelease :=
  { tag := release.tagName
    name := release.name.getD release.tagName
    notes := release.body.getD ""
    publishedAt := release.publishedAt.getD ""
    prerelease := release.prerelease
    htmlUrl := release.htmlUrl
    assetName := asset.name
    assetSize := asset.size
    canAutoInstall := canAutoInstall platform }

def evaluate (build : Build) (releases : List GhRelease) (channel : UpdateChannel) :
    Option AvailableRelease × Bool × String :=
  match (sortByKey usableKey (usable build.platform channel releases)).head? with
  | none =>
    (none, false,
      s!"No release in the latest {releasePageSize} carries a package for {platformLabel build.platform}.")
  | some (_, release, asset) =>
    let available := availableRelease build.platform release asset
    if channel ≠ build.nativeChannel then
      (some available, true, s!"{release.tagName} switches this install to {channel.label}.")
    else
      let currentIdx := build.buildRef.bind fun r => releases.findIdx? (·.tagName = r)
      let newerThanRunning :=
        (build.buildRef.map fun r => decide (versionKey r < versionKey release.tagName)).getD false
      match currentIdx, build.buildRef with
      | some _, _ =>
        if newerThanRunning then (some available, true, s!"{release.tagName} is available.")
        else (some available, false,
          s!"Running {release.tagName}, the newest build for this platform.")
      | none, none =>
        (some available, false,
          "This build reports no release tag, so it is probably a local build. " ++
          "Updating would replace it with a published release.")
      | none, some ref =>
        match assetVersion asset.name with
        | some offered =>
          if offered = build.version then
            (some available, false,
              s!"Running {build.version}, the same version as {release.tagName}.")
          else (some available, true,
            s!"Running {build.version}; {release.tagName} offers {offered}.")
        | none =>
          (some available, true, s!"Running {ref}, which is not among the recent releases. " ++
            s!"{release.tagName} is the newest published build.")

/-- `update_available`. -/
def updateAvailable (build : Build) (releases : List GhRelease) : Bool :=
  (evaluate build releases build.nativeChannel).2.1

/-- What `parse::<u64>` leaves of a number. -/
def clip (n : Nat) : Nat := if n < 2 ^ 64 then n else 0

theorem foldl_pushChar_clip (cs : List Char) (st : List Nat × List Char) :
    cs.foldl (pushChar parseU64OrZero) (st.1.map clip, st.2) =
      ((cs.foldl (pushChar decimal) st).1.map clip, (cs.foldl (pushChar decimal) st).2) := by
  induction cs generalizing st with
  | nil => rfl
  | cons c cs ih =>
    have hturn : pushChar parseU64OrZero (st.1.map clip, st.2) c =
        ((pushChar decimal st c).1.map clip, (pushChar decimal st c).2) := by
      unfold pushChar
      by_cases hdigit : c.isDigit = true
      · simp only [hdigit, if_true]
      · by_cases hempty : st.2.isEmpty = true
        · simp only [hdigit, hempty, if_true, if_false, Bool.false_eq_true]
        · simp only [hdigit, hempty, if_false, Bool.false_eq_true, List.map_append, List.map_cons,
            List.map_nil]
          rfl
    rw [List.foldl_cons, List.foldl_cons, hturn, ih]

theorem versionKey_eq (tag : String) : versionKey tag = (version tag).map clip := by
  unfold versionKey version tagNumbers
  have hfold := foldl_pushChar_clip tag.toList ([], [])
  rw [List.map_nil] at hfold
  rw [hfold]
  dsimp only
  by_cases hempty : (tag.toList.foldl (pushChar decimal) ([], [])).2.isEmpty = true
  · simp only [hempty, if_true]
  · simp only [hempty, if_false, Bool.false_eq_true, List.map_append, List.map_cons, List.map_nil]
    rfl

/-- The key of a tag is its version, as long as the numbers in it fit. -/
theorem versionKey_eq_version {tag : String} (h : ∀ n ∈ version tag, n < 2 ^ 64) :
    versionKey tag = version tag := by
  rw [versionKey_eq]
  exact List.map_congr_left (fun n hn => if_pos (h n hn)) |>.trans (List.map_id _)

/-! ### Which release is chosen -/

/-- A release that is no draft and carries a package for this platform. -/
def Carries (build : Build) (release : GhRelease) (asset : GhAsset) : Prop :=
  release.draft = false ∧ platformAsset build.platform build.nativeChannel release.assets =
    some asset

/-- A listed release that may be chosen, none of the others having a greater key. -/
structure Candidate (build : Build) (releases : List GhRelease) (release : GhRelease)
    (asset : GhAsset) : Prop where
  listed : release ∈ releases
  carries : Carries build release asset
  kept : isSuperseded release = false
  greatest : ∀ r ∈ releases, ∀ a, Carries build r a → isSuperseded r = false →
    versionKey r.tagName ≤ versionKey release.tagName

/-- The tag the build came from is in the listing. -/
def RefListed (build : Build) (releases : List GhRelease) : Prop :=
  ∃ r ∈ releases, build.buildRef = some r.tagName

instance (build : Build) (releases : List GhRelease) : Decidable (RefListed build releases) :=
  inferInstanceAs (Decidable (∃ r ∈ releases, build.buildRef = some r.tagName))

/-- Whether a chosen release is reported as an update. -/
def offers (build : Build) (listed : Bool) (release : GhRelease) (asset : GhAsset) : Bool :=
  match build.buildRef with
  | none => false
  | some ref =>
    if listed then versionKey ref < versionKey release.tagName
    else assetVersion asset.name ≠ some build.version

variable {build : Build} {releases releases' : List GhRelease} {release : GhRelease}
  {asset : GhAsset}

theorem mem_usable {i : Nat} :
    (i, release, asset) ∈ usable build.platform build.nativeChannel releases ↔
      releases[i]? = some release ∧ Carries build release asset ∧ isSuperseded release = false := by
  simp only [usable, List.mem_filterMap, List.mem_filter, Option.map_eq_some_iff, Prod.mk.injEq,
    Prod.exists, Carries, Bool.and_eq_true, Bool.not_eq_true', List.mem_zipIdx_iff_getElem?]
  constructor
  · rintro ⟨r, n, ⟨hget, hdraft, hkept⟩, a, hasset, rfl, rfl, rfl⟩
    exact ⟨hget, ⟨hdraft, hasset⟩, hkept⟩
  · rintro ⟨hget, ⟨hdraft, hasset⟩, hkept⟩
    exact ⟨release, i, ⟨hget, hdraft, hkept⟩, asset, hasset, rfl, rfl, rfl⟩

theorem head_least {α κ : Type} [LinearOrder κ] {key : α → κ} {l : List α} {x : α}
    (h : (sortByKey key l).head? = some x) : x ∈ l ∧ ∀ y ∈ l, key x ≤ key y := by
  obtain ⟨rest, hsorted⟩ := List.head?_eq_some_iff.1 h
  have hmem {y : α} : y ∈ l ↔ y ∈ x :: rest := by rw [← hsorted, sortByKey_perm.mem_iff]
  have hpair : (x :: rest).Pairwise fun a b => key a ≤ key b := hsorted ▸ pairwise_sortByKey
  refine ⟨hmem.2 List.mem_cons_self, fun y hy => ?_⟩
  rcases List.mem_cons.1 (hmem.1 hy) with rfl | hy
  · exact le_rfl
  · exact List.rel_of_pairwise_cons hpair hy

theorem usableKey_le {x y : Nat × GhRelease × GhAsset} : usableKey x ≤ usableKey y ↔
    versionKey y.2.1.tagName < versionKey x.2.1.tagName ∨
      versionKey x.2.1.tagName = versionKey y.2.1.tagName ∧ x.1 ≤ y.1 := by
  unfold usableKey
  rw [Prod.Lex.toLex_le_toLex]
  exact or_congr OrderDual.toDual_lt_toDual (and_congr_left fun _ => OrderDual.toDual_inj)

theorem candidate_of_head {i : Nat}
    (h : (sortByKey usableKey (usable build.platform build.nativeChannel releases)).head? =
      some (i, release, asset)) :
    Candidate build releases release asset := by
  obtain ⟨hmem, hleast⟩ := head_least h
  obtain ⟨hget, hcarries, hkept⟩ := mem_usable.1 hmem
  refine ⟨List.mem_of_getElem? hget, hcarries, hkept, fun r hr a ha hk => ?_⟩
  obtain ⟨j, hj⟩ := List.mem_iff_getElem?.1 hr
  rcases usableKey_le.1 (hleast _ (mem_usable.2 ⟨hj, ha, hk⟩)) with hlt | ⟨heq, -⟩
  · exact hlt.le
  · exact heq.ge

theorem Candidate.perm (h : Candidate build releases release asset)
    (hperm : releases'.Perm releases) : Candidate build releases' release asset :=
  ⟨hperm.mem_iff.2 h.listed, h.carries, h.kept, fun r hr => h.greatest r (hperm.mem_iff.1 hr)⟩

/-- Every candidate is the first one of some order of the listing. -/
theorem exists_head (h : Candidate build releases release asset) :
    ∃ releases', releases'.Perm releases ∧
    (sortByKey usableKey (usable build.platform build.nativeChannel releases')).head? =
    some (0, release, asset) := by
  classical
  refine ⟨release :: releases.erase release, (List.perm_cons_erase h.listed).symm, ?_⟩
  have hperm : (release :: releases.erase release).Perm releases :=
    (List.perm_cons_erase h.listed).symm
  have hmem : (0, release, asset) ∈ usable build.platform build.nativeChannel
      (release :: releases.erase release) :=
    mem_usable.2 ⟨rfl, h.carries, h.kept⟩
  cases hhead : (sortByKey usableKey
      (usable build.platform build.nativeChannel (release :: releases.erase release))).head? with
  | none =>
    have hsorted : (0, release, asset) ∈
        sortByKey usableKey
        (usable build.platform build.nativeChannel (release :: releases.erase release)) :=
      sortByKey_perm.mem_iff.2 hmem
    rw [List.head?_eq_none_iff.1 hhead] at hsorted
    cases hsorted
  | some x =>
    obtain ⟨j, r, a⟩ := x
    have hcand := candidate_of_head hhead
    obtain ⟨hmem', hleast⟩ := head_least hhead
    obtain ⟨hget, hcarries, -⟩ := mem_usable.1 hmem'
    rcases usableKey_le.1 (hleast _ hmem) with hlt | ⟨-, hj⟩
    · exact absurd (h.greatest r (hperm.mem_iff.1 hcand.listed) a hcand.carries hcand.kept)
        (not_le_of_gt hlt)
    · obtain rfl : j = 0 := Nat.le_zero.1 hj
      obtain rfl : release = r := Option.some.inj hget
      obtain rfl : asset = a := Option.some.inj (h.carries.2.symm.trans hcarries.2)
      rfl

theorem refListed_iff : RefListed build releases ↔
    (build.buildRef.bind fun r => releases.findIdx? (·.tagName = r)).isSome = true := by
  unfold RefListed
  cases build.buildRef with
  | none => simp
  | some ref =>
    rw [Option.bind_some, List.findIdx?_isSome, List.any_eq_true]
    refine exists_congr fun r => and_congr_right fun _ => ?_
    rw [Option.some.injEq, decide_eq_true_eq, eq_comm]

theorem RefListed.perm (hperm : releases'.Perm releases) : RefListed build releases' ↔
    RefListed build releases :=
  exists_congr fun _ => and_congr_left fun _ => hperm.mem_iff

/-- What `evaluate` answers for the chosen release. -/
theorem evaluate_head {i : Nat}
    (h : (sortByKey usableKey (usable build.platform build.nativeChannel releases)).head? =
      some (i, release, asset)) :
    (evaluate build releases build.nativeChannel).1 =
    some (availableRelease build.platform release asset) ∧
      updateAvailable build releases = offers build (decide (RefListed build releases))
      release asset := by
  have hlisted : decide (RefListed build releases) =
      (build.buildRef.bind fun r => releases.findIdx? (·.tagName = r)).isSome := by
    rw [Bool.eq_iff_iff, decide_eq_true_eq]
    exact refListed_iff
  unfold updateAvailable evaluate offers
  rw [h, hlisted]
  dsimp only
  rw [if_neg (not_not_intro rfl)]
  cases href : build.buildRef with
  | none => exact ⟨rfl, rfl⟩
  | some ref =>
    rw [Option.bind_some]
    cases hidx : releases.findIdx? (·.tagName = ref) with
    | some n =>
      dsimp only [Option.map_some, Option.getD_some, Option.isSome_some]
      by_cases hnewer : versionKey ref < versionKey release.tagName
      · simp [hnewer]
      · simp [hnewer]
    | none =>
      dsimp only [Option.isSome_none]
      cases hversion : assetVersion asset.name with
      | none => simp
      | some offered =>
        by_cases hsame : offered = build.version
        · simp [hsame]
        · simp [hsame]

theorem updateAvailable_none
    (h : (sortByKey usableKey (usable build.platform build.nativeChannel releases)).head? = none) :
    updateAvailable build releases = false := by
  unfold updateAvailable evaluate
  rw [h]

/-! ### Upgrades only -/

/-- A listed release with a package that is newer than the running build, by its version and by its
tag where that is listed, and such that none with a package is newer. -/
structure Newest (build : Build) (releases : List GhRelease) (release : GhRelease)
    (asset : GhAsset) : Prop where
  listed : release ∈ releases
  carries : Carries build release asset
  newer : version build.version < version release.tagName
  newerThanRef : RefListed build releases → ∀ ref, build.buildRef = some ref →
    version ref < version release.tagName
  maximal : ∀ r ∈ releases, ∀ a, Carries build r a → version r.tagName ≤ version release.tagName

/-- In every order of the listing the same is reported, and an update only for a newest release. -/
def OffersUpgrades (build : Build) (releases : List GhRelease) : Prop :=
  ∀ releases', releases'.Perm releases →
    updateAvailable build releases' = updateAvailable build releases ∧
      (updateAvailable build releases' = true → ∃ release asset,
        (evaluate build releases' build.nativeChannel).1 =
        some (availableRelease build.platform release asset) ∧
          Newest build releases release asset)

theorem Newest.of_tag {r : GhRelease} {a : GhAsset} (h : Newest build releases r a)
    (htag : r.tagName = release.tagName)
    (hlisted : release ∈ releases) (hcarries : Carries build release asset) :
    Newest build releases release asset :=
  ⟨hlisted, hcarries, htag ▸ h.newer, fun hl ref href => htag ▸ h.newerThanRef hl ref href,
    htag ▸ h.maximal⟩

/-- With numbers that fit and no withdrawn release, a candidate is newest if its key says that it is
newer. -/
theorem Candidate.newest (h : Candidate build releases release asset)
    (hfits : ∀ r ∈ releases, ∀ n ∈ version r.tagName, n < 2 ^ 64)
    (hkept : ∀ r ∈ releases, isSuperseded r = false)
    (hnewer : version build.version < versionKey release.tagName)
    (hnewerThanRef : ∀ ref, build.buildRef = some ref →
      versionKey ref < versionKey release.tagName) :
    Newest build releases release asset := by
  have hkey : ∀ r ∈ releases, versionKey r.tagName = version r.tagName :=
    fun r hr => versionKey_eq_version (hfits r hr)
  refine ⟨h.listed, h.carries, hkey release h.listed ▸ hnewer, ?_, fun r hr a ha => ?_⟩
  · rintro ⟨r, hr, hname⟩ ref href
    obtain rfl := Option.some.inj (hname.symm.trans href)
    rw [← hkey r hr, ← hkey release h.listed]
    exact hnewerThanRef _ href
  · rw [← hkey r hr, ← hkey release h.listed]
    exact h.greatest r hr a ha (hkept r hr)

theorem offersUpgrades_iff : OffersUpgrades build releases ↔
    (∀ r a, Candidate build releases r a → offers build (decide (RefListed build releases)) r a =
      false) ∨ ∀ r a, Candidate build releases r a →
        offers build (decide (RefListed build releases)) r a = true ∧
        Newest build releases r a := by
  -- what is reported for a candidate in an order that puts it first
  have hfirst {r : GhRelease} {a : GhAsset} (hr : Candidate build releases r a) :
      ∃ releases', releases'.Perm releases ∧
      (evaluate build releases' build.nativeChannel).1 =
      some (availableRelease build.platform r a) ∧
      updateAvailable build releases' = offers build (decide (RefListed build releases)) r a := by
    obtain ⟨releases', hperm, hhead⟩ := exists_head hr
    obtain ⟨hchosen, hreported⟩ := evaluate_head hhead
    exact ⟨releases', hperm, hchosen,
      hreported.trans (by rw [decide_eq_decide.2 (RefListed.perm hperm)])⟩
  constructor
  · intro h
    cases hreported : updateAvailable build releases with
    | false =>
      refine .inl fun r a hr => ?_
      obtain ⟨releases', hperm, -, hoffers⟩ := hfirst hr
      rw [← hoffers, (h releases' hperm).1, hreported]
    | true =>
      refine .inr fun r a hr => ?_
      obtain ⟨releases', hperm, hchosen, hoffers⟩ := hfirst hr
      have htrue : updateAvailable build releases' = true := (h releases' hperm).1.trans hreported
      obtain ⟨r', a', hchosen', hnewest⟩ := (h releases' hperm).2 htrue
      have htag : r'.tagName = r.tagName :=
        congrArg AvailableRelease.tag (Option.some.inj (hchosen'.symm.trans hchosen))
      exact ⟨hoffers.symm.trans htrue, hnewest.of_tag htag hr.listed hr.carries⟩
  · intro h
    have hchosen : ∀ releases', releases'.Perm releases →
        (updateAvailable build releases' = false ∧ ∀ r a, ¬ Candidate build releases r a) ∨
          ∃ r a, Candidate build releases r a ∧
            (evaluate build releases' build.nativeChannel).1 =
            some (availableRelease build.platform r a) ∧
            updateAvailable build releases' = offers build (decide (RefListed build releases))
            r a := by
      intro releases' hperm
      cases hhead :
        (sortByKey usableKey (usable build.platform build.nativeChannel releases')).head? with
      | none =>
        refine .inl ⟨updateAvailable_none hhead, fun r a hr => ?_⟩
        obtain ⟨i, hi⟩ := List.mem_iff_getElem?.1 (hr.perm hperm).listed
        have hsorted :
            (i, r, a) ∈ sortByKey usableKey (usable build.platform build.nativeChannel releases') :=
          sortByKey_perm.mem_iff.2 (mem_usable.2 ⟨hi, hr.carries, hr.kept⟩)
        rw [List.head?_eq_none_iff.1 hhead] at hsorted
        cases hsorted
      | some x =>
        obtain ⟨i, r, a⟩ := x
        obtain ⟨hchosen, hreported⟩ := evaluate_head hhead
        rw [decide_eq_decide.2 (RefListed.perm hperm)] at hreported
        exact .inr ⟨r, a, (candidate_of_head hhead).perm hperm.symm, hchosen, hreported⟩
    rcases h with hnever | halways
    · have hfalse : ∀ releases', releases'.Perm releases →
          updateAvailable build releases' = false := by
        intro releases' hperm
        rcases hchosen releases' hperm with ⟨hnone, -⟩ | ⟨r, a, hr, -, hreported⟩
        · exact hnone
        · rw [hreported, hnever r a hr]
      intro releases' hperm
      rw [hfalse releases' hperm, hfalse releases (List.Perm.refl _)]
      exact ⟨rfl, fun htrue => absurd htrue Bool.false_ne_true⟩
    · intro releases' hperm
      rcases hchosen releases' hperm with ⟨hnone, hempty⟩ | ⟨r, a, hr, havailable, hreported⟩
      · rcases hchosen releases (List.Perm.refl _) with ⟨hnone', -⟩ | ⟨r, a, hr, -⟩
        · rw [hnone, hnone']
          exact ⟨rfl, fun htrue => absurd htrue Bool.false_ne_true⟩
        · exact absurd hr (hempty r a)
      · rcases hchosen releases (List.Perm.refl _) with ⟨-, hempty⟩ | ⟨r', a', hr', -, hreported'⟩
        · exact absurd hr (hempty r a)
        · rw [hreported, hreported', (halways r a hr).1, (halways r' a' hr').1]
          exact ⟨rfl, fun _ => ⟨r, a, havailable, (halways r a hr).2⟩⟩

end Update

/-- Updates are upgrades only, in whatever order the releases are listed, exactly where the build
has no tag, or its tag is listed and is at least the greatest key or the candidates are newest, or
its tag is not listed and every candidate's package spells the running version, or none does and
they are newest. -/
theorem evaluate_upgrades (build : Update.Build) (releases : List Update.GhRelease) :
    Update.OffersUpgrades build releases ↔
      build.buildRef = none ∨
      (∃ ref, build.buildRef = some ref ∧ Update.RefListed build releases ∧
        ((∀ r a, Update.Candidate build releases r a →
          Update.versionKey r.tagName ≤ Update.versionKey ref) ∨
          ∀ r a, Update.Candidate build releases r a → Update.Newest build releases r a)) ∨
      ∃ ref, build.buildRef = some ref ∧ ¬ Update.RefListed build releases ∧
        ((∀ r a, Update.Candidate build releases r a →
          Update.assetVersion a.name = some build.version) ∨
          ∀ r a, Update.Candidate build releases r a →
            Update.assetVersion a.name ≠ some build.version ∧
              Update.Newest build releases r a) := by
  rw [Update.offersUpgrades_iff]
  unfold Update.offers
  cases href : build.buildRef with
  | none => simp
  | some ref =>
    by_cases hlisted : Update.RefListed build releases
    · simp only [hlisted, decide_true, if_true, decide_eq_true_eq, decide_eq_false_iff_not, not_lt,
        reduceCtorEq,
        Option.some.injEq, false_or, exists_eq_left', not_true_eq_false, false_and, and_false,
        exists_false, or_false, true_and]
      constructor
      · exact fun h => h.imp_right fun hall r a hr => (hall r a hr).2
      · rintro (hnone | hall)
        · exact .inl hnone
        by_cases hsome : ∃ r a, Update.Candidate build releases r a ∧
          Update.versionKey r.tagName ≤ Update.versionKey ref
        · -- the candidates have one key
          obtain ⟨r, a, hr, hle⟩ := hsome
          exact .inl fun r' a' hr' => (hr.greatest r' hr'.listed a' hr'.carries hr'.kept).trans hle
        · push Not at hsome
          exact .inr fun r a hr => ⟨hsome r a hr, hall r a hr⟩
    · simp [hlisted]

namespace Update

/-- The running build is ahead of the listing, and was cut from a branch. -/
def branchBuild : Build := ⟨.windows, .community, "0.13.0", some "main"⟩

def olderRelease : GhRelease :=
  ⟨"v0.12.9-community.1", none, none, none, true, false, "",
    [⟨"SoloSetup-0.12.9-x86_64.exe", 42, ""⟩]⟩

end Update

open Update in
theorem evaluate_downgrades :
    ¬ ∀ (build : Build) (releases : List GhRelease), OffersUpgrades build releases := by
  intro h
  have hreported : updateAvailable branchBuild [olderRelease] = true := by decide +kernel
  obtain ⟨r, a, -, hnewest⟩ :=
    (h branchBuild [olderRelease] [olderRelease] (List.Perm.refl _)).2 hreported
  have hlt := hnewest.newer
  rw [List.mem_singleton.1 hnewest.listed] at hlt
  have hge : ¬ version branchBuild.version < version olderRelease.tagName := by decide +kernel
  exact hge hlt

end Solo
