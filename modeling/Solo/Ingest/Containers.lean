import Mathlib.Data.List.TakeWhile
import Solo.Lib.ByteFields
import Solo.Lib.Result

/-!
# Binary containers of documents (`parse.rs`)

`parse_glb_metadata` walks the chunks of a GLB file and `jpeg_dimensions` the segments of a JPEG
image. What they accept is said by a grammar: `glbBytes` writes a file from its chunks and
`JpegItem.bytes` what may stand before the frame header. The parsers accept exactly the files that
are written so, and answer with what was written (`parseGlbContainer_eq_ok`,
`jpegDimensions_eq_ok`).
-/

namespace Solo

open ByteFields

inductive ParseError
  | image (reason : String)
  | model (reason : String)
  deriving DecidableEq

/-! ### GLB -/

def MAX_MODEL_JSON_BYTES : Nat := 10 * 1024 * 1024

def GLB_MAGIC : List UInt8 := [0x67, 0x6c, 0x54, 0x46]

def GLB_JSON : List UInt8 := [0x4a, 0x53, 0x4f, 0x4e]

def GLB_BIN : List UInt8 := [0x42, 0x49, 0x4e, 0x00]

/-- What the loop over the chunks has found. -/
structure GlbScan where
  jsonChunk : Option (List UInt8)
  jsonChunkBytes : Nat
  binChunkBytes : Nat
  extraChunkCount : Nat
  deriving DecidableEq

structure GlbContainer where
  version : Nat
  declaredLength : Nat
  jsonChunk : List UInt8
  jsonChunkBytes : Nat
  binChunkBytes : Nat
  extraChunkCount : Nat
  deriving DecidableEq

/-- The bytes without the spaces and zeros at their end. -/
def trimPadding (bytes : List UInt8) : List UInt8 :=
  (bytes.reverse.dropWhile fun b => b = 0x20 || b = 0).reverse

def saturatingAdd64 (a b : Nat) : Nat := min (a + b) 0xffffffffffffffff

def GlbScan.chunk (scan : GlbScan) (type data : List UInt8) : Except ParseError GlbScan :=
  if type = GLB_JSON then
    if scan.jsonChunk.isSome then .error (.model "GLB has multiple JSON chunks")
    else if MAX_MODEL_JSON_BYTES < data.length then .error
      (.model s!"GLB JSON chunk exceeds {MAX_MODEL_JSON_BYTES} bytes")
    else .ok { scan with jsonChunk := some (trimPadding data), jsonChunkBytes := data.length }
  else if type =
    GLB_BIN then .ok { scan with binChunkBytes := saturatingAdd64 scan.binChunkBytes data.length }
  else .ok { scan with extraChunkCount := saturatingAdd64 scan.extraChunkCount 1 }

/-- The loop, on what is left of the file. -/
def glbChunks (rest : List UInt8) (scan : GlbScan) : Except ParseError GlbScan :=
  if rest = [] then .ok scan
  else if rest.length < 8 then .error (.model "truncated GLB chunk header")
  else if rest.length - 8 < ofLe (rest.take 4) then
    .error (.model s!"GLB chunk length {ofLe (rest.take 4)} exceeds remaining file bytes")
  else
    scan.chunk ((rest.drop 4).take 4) ((rest.drop 8).take (ofLe (rest.take 4))) >>= fun scan =>
      glbChunks ((rest.drop 8).drop (ofLe (rest.take 4))) scan
termination_by rest.length
decreasing_by
  simp only [List.length_drop]
  omega

/-- `parse_glb_metadata` up to the text of the JSON chunk. -/
def parseGlbContainer (bytes : List UInt8) : Except ParseError GlbContainer :=
  if bytes.length < 12 then .error (.model "GLB header: failed to fill whole buffer")
  else if bytes.take 4 ≠ GLB_MAGIC then .error (.model "invalid GLB magic")
  else if ofLe ((bytes.drop 8).take 4) ≠ bytes.length then
    .error (.model
      s!"GLB declared length {ofLe ((bytes.drop 8).take 4)} does not match file size {bytes.length}")
  else
    glbChunks (bytes.drop 12) ⟨none, 0, 0, 0⟩ >>= fun scan =>
      match scan.jsonChunk with
      | none => .error (.model "GLB missing JSON chunk")
      | some json =>
        .ok ⟨ofLe ((bytes.drop 4).take 4), ofLe ((bytes.drop 8).take 4), json, scan.jsonChunkBytes,
          scan.binChunkBytes, scan.extraChunkCount⟩

/-- A chunk as it is written. -/
structure GlbChunk where
  type : List UInt8
  data : List UInt8

namespace GlbChunk

def bytes (c : GlbChunk) : List UInt8 := toLe 4 c.data.length ++ (c.type ++ c.data)

structure Valid (c : GlbChunk) : Prop where
  type : c.type.length = 4
  data : c.data.length < 256 ^ 4

def isJson (c : GlbChunk) : Bool := c.type = GLB_JSON

def isBin (c : GlbChunk) : Bool := c.type = GLB_BIN

end GlbChunk

def glbBody (chunks : List GlbChunk) : List UInt8 := chunks.flatMap GlbChunk.bytes

def glbBytes (version : Nat) (chunks : List GlbChunk) : List UInt8 :=
  GLB_MAGIC ++ (toLe 4 version ++ (toLe 4 (12 + (glbBody chunks).length) ++ glbBody chunks))

/-- The bytes of the BIN chunks. -/
def binBytes (chunks : List GlbChunk) : Nat :=
  ((chunks.filter GlbChunk.isBin).flatMap GlbChunk.data).length

/-- The chunks of other types. -/
def extraChunks (chunks : List GlbChunk) : List GlbChunk :=
  chunks.filter fun c => !c.isJson && !c.isBin

/-- One JSON chunk that is not too large, in a file whose numbers fit their fields. -/
structure WellFormedGlb (version : Nat) (chunks : List GlbChunk) (j : GlbChunk) : Prop where
  version : version < 256 ^ 4
  length : 12 + (glbBody chunks).length < 256 ^ 4
  types : ∀ c ∈ chunks, c.type.length = 4
  json : chunks.filter GlbChunk.isJson = [j]
  size : j.data.length ≤ MAX_MODEL_JSON_BYTES

/-- What a file says of its chunks. -/
def glbContainer (version : Nat) (chunks : List GlbChunk) (j : GlbChunk) : GlbContainer where
  version := version
  declaredLength := 12 + (glbBody chunks).length
  jsonChunk := trimPadding j.data
  jsonChunkBytes := j.data.length
  binChunkBytes := binBytes chunks
  extraChunkCount := (extraChunks chunks).length

/-- The scan after chunks none of which is JSON. -/
def GlbScan.others (scan : GlbScan) (chunks : List GlbChunk) : GlbScan :=
  { scan with
    binChunkBytes := saturatingAdd64 scan.binChunkBytes (binBytes chunks)
    extraChunkCount := saturatingAdd64 scan.extraChunkCount (extraChunks chunks).length }

/-- The counters are of 64 bits. -/
structure GlbScan.Fits (scan : GlbScan) : Prop where
  bin : scan.binChunkBytes ≤ 0xffffffffffffffff
  extra : scan.extraChunkCount ≤ 0xffffffffffffffff

/-- The chunks one after another. -/
def scanChunks (chunks : List GlbChunk) (scan : GlbScan) : Except ParseError GlbScan :=
  chunks.foldlM (fun scan c => scan.chunk c.type c.data) scan

section Glb

variable {rest : List UInt8} {scan scan' : GlbScan} {chunks : List GlbChunk} {c : GlbChunk}

theorem scanChunks_cons_eq_ok : scanChunks (c :: chunks) scan = .ok scan' ↔
    ∃ scan₁, scan.chunk c.type c.data = .ok scan₁ ∧ scanChunks chunks scan₁ = .ok scan' :=
    Result.foldlM_cons_eq_ok

theorem scanChunks_append {scan₁ : GlbScan} {pre : List GlbChunk}
    (h : scanChunks pre scan = .ok scan₁) :
    scanChunks (pre ++ chunks) scan = scanChunks chunks scan₁ := by
  unfold scanChunks at h ⊢
  rw [List.foldlM_append, h]
  rfl

theorem glbChunks_nil (scan : GlbScan) : glbChunks [] scan = .ok scan := by
  rw [glbChunks]
  rfl

/-- One round of the loop. -/
theorem glbChunks_bytes (hc : c.Valid) (rest : List UInt8) (scan : GlbScan) :
    glbChunks (c.bytes ++ rest) scan =
    (scan.chunk c.type c.data >>= fun scan => glbChunks rest scan) := by
  have hlen : (toLe 4 c.data.length).length = 4 := length_toLe _ _
  have htype := hc.type
  have hnum : (c.bytes ++ rest).take 4 = toLe 4 c.data.length := by
    rw [GlbChunk.bytes, List.append_assoc, List.take_left' hlen]
  have hdrop : (c.bytes ++ rest).drop 4 = c.type ++ (c.data ++ rest) := by
    rw [GlbChunk.bytes, List.append_assoc, List.drop_left' hlen, List.append_assoc]
  have hbody : (c.bytes ++ rest).drop 8 = c.data ++ rest := by
    rw [show 8 = 4 + 4 from rfl, ← List.drop_drop, hdrop, List.drop_left' htype]
  have htotal : (c.bytes ++ rest).length = 8 + (c.data.length + rest.length) := by
    simp only [GlbChunk.bytes, List.length_append, hlen, htype]
    omega
  have hne : c.bytes ++ rest ≠ [] := by
    rw [← List.length_pos_iff, htotal]
    omega
  rw [glbChunks, if_neg hne, if_neg (by omega), hnum, ofLe_toLe hc.data, if_neg (by omega), hdrop,
    hbody, List.take_left' htype, List.take_left' rfl, List.drop_left' rfl]

theorem glbChunks_glbBody (h : ∀ c ∈ chunks, c.Valid) (scan : GlbScan) :
    glbChunks (glbBody chunks) scan = scanChunks chunks scan := by
  induction chunks generalizing scan with
  | nil => exact glbChunks_nil scan
  | cons c chunks ih =>
    rw [glbBody, List.flatMap_cons, glbChunks_bytes (h c List.mem_cons_self), scanChunks,
      List.foldlM_cons]
    exact congrArg _ (funext fun scan => ih (fun c hc => h c (List.mem_cons_of_mem _ hc)) scan)

/-- What the loop goes through is a row of chunks. -/
theorem exists_chunks (h : glbChunks rest scan = .ok scan') :
    ∃ chunks, rest = glbBody chunks ∧ ∀ c ∈ chunks, c.Valid := by
  induction rest, scan using glbChunks.induct with
  | case1 scan => exact ⟨[], rfl, by simp⟩
  | case2 rest scan hne hshort =>
    rw [glbChunks, if_neg hne, if_pos hshort] at h
    cases h
  | case3 rest scan hne hshort hlong =>
    rw [glbChunks, if_neg hne, if_neg hshort, if_pos hlong] at h
    cases h
  | case4 rest scan hne hshort hlong ih =>
    rw [glbChunks, if_neg hne, if_neg hshort, if_neg hlong] at h
    obtain ⟨scan₁, -, h⟩ := Result.bind_eq_ok.1 h
    obtain ⟨chunks, hchunks, hvalid⟩ := ih scan₁ h
    have hlen : ((rest.drop 8).take (ofLe (rest.take 4))).length = ofLe (rest.take 4) := by
      rw [List.length_take, List.length_drop]
      omega
    have hnum : (rest.take 4).length = 4 := by
      rw [List.length_take]
      omega
    refine ⟨⟨(rest.drop 4).take 4, (rest.drop 8).take (ofLe (rest.take 4))⟩ :: chunks, ?_,
      fun c hc => ?_⟩
    · rw [glbBody, List.flatMap_cons, GlbChunk.bytes, hlen, toLe_ofLe_of_length hnum]
      have hbody : rest.drop 8 = (rest.drop 4).drop 4 := by rw [List.drop_drop]
      rw [← glbBody, ← hchunks, List.append_assoc, List.append_assoc, List.take_append_drop, hbody,
        List.take_append_drop, List.take_append_drop]
    · rcases List.mem_cons.1 hc with rfl | hc
      · refine ⟨?_, ?_⟩
        · simp only [List.length_take, List.length_drop]
          omega
        · rw [hlen]
          have hlt := ofLe_lt (rest.take 4)
          rwa [hnum] at hlt
      · exact hvalid c hc

/-- The loop succeeds on chunks that can be added one after another, and on nothing else. -/
theorem glbChunks_eq_ok : glbChunks rest scan = .ok scan' ↔ ∃ chunks, rest = glbBody chunks ∧
    (∀ c ∈ chunks, c.Valid) ∧ scanChunks chunks scan = .ok scan' := by
  constructor
  · intro h
    obtain ⟨chunks, rfl, hvalid⟩ := exists_chunks h
    exact ⟨chunks, rfl, hvalid, by rw [← glbChunks_glbBody hvalid, h]⟩
  · rintro ⟨chunks, rfl, hvalid, h⟩
    rw [glbChunks_glbBody hvalid, h]

theorem chunk_json (hj : c.isJson = true) (hnone : scan.jsonChunk = none)
    (hsize : c.data.length ≤ MAX_MODEL_JSON_BYTES) : scan.chunk c.type c.data =
      .ok { scan with jsonChunk := some (trimPadding c.data), jsonChunkBytes := c.data.length } := by
  rw [GlbScan.chunk, if_pos (of_decide_eq_true hj), hnone, if_neg (by simp), if_neg (by omega)]

/-- A JSON chunk is the first one. -/
theorem chunk_json_eq_ok (hj : c.isJson = true) (h : scan.chunk c.type c.data = .ok scan') :
    scan.jsonChunk = none ∧ c.data.length ≤ MAX_MODEL_JSON_BYTES := by
  rw [GlbScan.chunk, if_pos (of_decide_eq_true hj)] at h
  by_cases hsome : scan.jsonChunk.isSome = true
  · rw [if_pos hsome] at h
    cases h
  · rw [if_neg hsome] at h
    refine ⟨by simpa using hsome, ?_⟩
    by_contra hsize
    rw [if_pos (by omega)] at h
    cases h

theorem GlbScan.fits_others (scan : GlbScan) (chunks : List GlbChunk) : (scan.others chunks).Fits :=
  ⟨Nat.min_le_right _ _, Nat.min_le_right _ _⟩

theorem chunk_other (hc : c.isJson = false) (hfits : scan.Fits) :
    scan.chunk c.type c.data = .ok (scan.others [c]) := by
  have hbin := hfits.bin
  have hextra := hfits.extra
  rw [GlbScan.chunk, if_neg (of_decide_eq_false hc)]
  by_cases hb : c.isBin = true
  · rw [if_pos (of_decide_eq_true hb)]
    simp only [GlbScan.others, binBytes, extraChunks, List.filter_cons, hb, hc, List.filter_nil]
    simp [saturatingAdd64, Nat.min_eq_left hextra]
  · rw [if_neg (fun h => hb (decide_eq_true h))]
    simp only [GlbScan.others, binBytes, extraChunks, List.filter_cons, hb, hc, List.filter_nil]
    simp [saturatingAdd64, Nat.min_eq_left hbin]

theorem others_append (scan : GlbScan) (chunks chunks' : List GlbChunk) :
    (scan.others chunks).others chunks' = scan.others (chunks ++ chunks') := by
  simp only [GlbScan.others, binBytes, extraChunks, List.filter_append, List.flatMap_append,
    List.length_append, saturatingAdd64, GlbScan.mk.injEq, true_and]
  omega

theorem others_nil (hfits : scan.Fits) : scan.others [] = scan := by
  obtain ⟨json, jsonBytes, bin, extra⟩ := scan
  have hbin : bin ≤ 0xffffffffffffffff := hfits.bin
  have hextra : extra ≤ 0xffffffffffffffff := hfits.extra
  simp only [GlbScan.others, binBytes, extraChunks, List.filter_nil, List.flatMap_nil,
    List.length_nil, saturatingAdd64, GlbScan.mk.injEq, true_and]
  omega

theorem scanChunks_others (hc : ∀ c ∈ chunks, c.isJson = false) (hfits : scan.Fits) :
    scanChunks chunks scan = .ok (scan.others chunks) := by
  induction chunks generalizing scan with
  | nil =>
    rw [others_nil hfits]
    rfl
  | cons c chunks ih =>
    have hrest : ∀ c ∈ chunks, c.isJson = false := fun c h => hc c (List.mem_cons_of_mem _ h)
    refine scanChunks_cons_eq_ok.2 ⟨_, chunk_other (hc c List.mem_cons_self) hfits, ?_⟩
    rw [ih hrest (scan.fits_others _), others_append]
    rfl

/-- After the JSON chunk there is no other one. -/
theorem not_isJson_of_scanChunks (hfits : scan.Fits) (hsome : scan.jsonChunk.isSome = true)
    (h : scanChunks chunks scan = .ok scan') : ∀ c ∈ chunks, c.isJson = false := by
  induction chunks generalizing scan with
  | nil => simp
  | cons c chunks ih =>
    obtain ⟨scan₁, hscan₁, h⟩ := scanChunks_cons_eq_ok.1 h
    cases hj : c.isJson with
    | true =>
      rw [(chunk_json_eq_ok hj hscan₁).1] at hsome
      cases hsome
    | false =>
      rw [chunk_other hj hfits] at hscan₁
      obtain rfl := Except.ok.inj hscan₁
      intro c' hc'
      rcases List.mem_cons.1 hc' with rfl | hc'
      · exact hj
      · exact ih (scan.fits_others _) hsome h c' hc'

/-- The scan after one JSON chunk among others. -/
def GlbScan.all (scan : GlbScan) (pre : List GlbChunk) (j : GlbChunk) (post : List GlbChunk) :
    GlbScan :=
  { scan.others (pre ++ post) with jsonChunk := some (trimPadding j.data), jsonChunkBytes := j.data.length }

theorem scanChunks_all {pre post : List GlbChunk} {j : GlbChunk} (hfits : scan.Fits)
    (hnone : scan.jsonChunk = none)
    (hpre : ∀ c ∈ pre, c.isJson = false) (hj : j.isJson = true)
    (hsize : j.data.length ≤ MAX_MODEL_JSON_BYTES) :
    scanChunks (pre ++ j :: post) scan = .ok scan' ↔
      (∀ c ∈ post, c.isJson = false) ∧ scan' = scan.all pre j post := by
  have hnone' : (scan.others pre).jsonChunk = none := hnone
  have hfits' : GlbScan.Fits (scan.all pre j []) := ⟨Nat.min_le_right _ _, Nat.min_le_right _ _⟩
  have hstep : (scan.others pre).chunk j.type j.data = .ok (scan.all pre j []) := by
    rw [chunk_json hj hnone' hsize, GlbScan.all, List.append_nil]
  have hfold (hpost : ∀ c ∈ post, c.isJson = false) :
      scanChunks post (scan.all pre j []) = .ok (scan.all pre j post) := by
    rw [scanChunks_others hpost hfits', GlbScan.all, GlbScan.all, ← others_append scan pre post,
      List.append_nil]
    rfl
  rw [scanChunks_append (scanChunks_others hpre hfits), scanChunks_cons_eq_ok, hstep]
  constructor
  · rintro ⟨scan₁, hscan₁, h⟩
    obtain rfl := Except.ok.inj hscan₁
    have hpost := not_isJson_of_scanChunks hfits' rfl h
    exact ⟨hpost, Except.ok.inj (h.symm.trans (hfold hpost))⟩
  · rintro ⟨hpost, rfl⟩
    exact ⟨_, rfl, hfold hpost⟩

/-- The loop finds a JSON chunk exactly where there is one, and it is not too large. -/
theorem scanChunks_eq_ok (hfits : scan.Fits) (hnone : scan.jsonChunk = none)
    (hsome : scan'.jsonChunk.isSome = true) :
    scanChunks chunks scan = .ok scan' ↔ ∃ pre j post, chunks = pre ++ j :: post ∧
      (∀ c ∈ pre ++ post, c.isJson = false) ∧ j.isJson = true ∧
      j.data.length ≤ MAX_MODEL_JSON_BYTES ∧ scan' = scan.all pre j post := by
  constructor
  · intro h
    cases hjs : chunks.filter GlbChunk.isJson with
    | nil =>
      have hall : ∀ c ∈ chunks, c.isJson = false := by simpa using List.filter_eq_nil_iff.1 hjs
      rw [scanChunks_others hall hfits] at h
      obtain rfl := Except.ok.inj h
      have hnone' : (scan.others chunks).jsonChunk = none := hnone
      rw [hnone'] at hsome
      cases hsome
    | cons j js =>
      obtain ⟨pre, post, rfl, hpre, hj, -⟩ := List.filter_eq_cons_iff.1 hjs
      replace hpre : ∀ c ∈ pre, c.isJson = false := by simpa using hpre
      have hsize : j.data.length ≤ MAX_MODEL_JSON_BYTES := by
        have hrest := h
        rw [scanChunks_append (scanChunks_others hpre hfits)] at hrest
        obtain ⟨scan₁, hscan₁, -⟩ := scanChunks_cons_eq_ok.1 hrest
        exact (chunk_json_eq_ok hj hscan₁).2
      obtain ⟨hpost, hscan'⟩ := (scanChunks_all hfits hnone hpre hj hsize).1 h
      exact ⟨pre, j, post, rfl, fun c hc => (List.mem_append.1 hc).elim (hpre c) (hpost c), hj,
        hsize, hscan'⟩
  · rintro ⟨pre, j, post, rfl, hothers, hj, hsize, hscan'⟩
    exact (scanChunks_all hfits hnone (fun c hc => hothers c (List.mem_append_left _ hc))
      hj hsize).2 ⟨fun c hc => hothers c (List.mem_append_right _ hc), hscan'⟩

theorem binBytes_insert {pre post : List GlbChunk} {j : GlbChunk} (hj : j.isJson = true) :
    binBytes (pre ++ j :: post) = binBytes (pre ++ post) := by
  have hbin : j.isBin = false := by
    rw [GlbChunk.isBin, of_decide_eq_true hj]
    rfl
  simp only [binBytes, List.filter_append, List.filter_cons, hbin, Bool.false_eq_true, if_false]

theorem extraChunks_insert {pre post : List GlbChunk} {j : GlbChunk} (hj : j.isJson = true) :
    extraChunks (pre ++ j :: post) = extraChunks (pre ++ post) := by
  simp [extraChunks, List.filter_append, hj]

theorem length_bytes (c : GlbChunk) : c.bytes.length = 4 + (c.type.length + c.data.length) := by
  simp [GlbChunk.bytes]

/-- The numbers of a file are no larger than the file. -/
theorem counts_le (chunks : List GlbChunk) : binBytes chunks ≤ (glbBody chunks).length ∧
    (extraChunks chunks).length ≤ (glbBody chunks).length ∧
    ∀ c ∈ chunks, c.data.length ≤ (glbBody chunks).length := by
  induction chunks with
  | nil => exact ⟨Nat.le_refl _, Nat.le_refl _, by simp⟩
  | cons c chunks ih =>
    obtain ⟨hbin, hextra, hdata⟩ := ih
    have hbody : (glbBody (c :: chunks)).length = 4 + (c.type.length + c.data.length) +
        (glbBody chunks).length := by
      rw [glbBody, List.flatMap_cons, List.length_append, length_bytes]
      rfl
    refine ⟨?_, ?_, fun c' hc' => ?_⟩
    · have hcons : binBytes (c :: chunks) ≤ c.data.length + binBytes chunks := by
        unfold binBytes
        rw [List.filter_cons]
        split
        · rw [List.flatMap_cons, List.length_append]
        · omega
      omega
    · have hcons : (extraChunks (c :: chunks)).length ≤ 1 + (extraChunks chunks).length := by
        unfold extraChunks
        rw [List.filter_cons]
        split
        · rw [List.length_cons]
          omega
        · omega
      omega
    · rcases List.mem_cons.1 hc' with rfl | hc'
      · omega
      · have := hdata c' hc'
        omega

/-- The fields of a file that was written. -/
theorem glbBytes_fields (version : Nat) (chunks : List GlbChunk) :
    (glbBytes version chunks).length = 12 + (glbBody chunks).length ∧
    (glbBytes version chunks).take 4 = GLB_MAGIC ∧
      ((glbBytes version chunks).drop 4).take 4 = toLe 4 version ∧
      ((glbBytes version chunks).drop 8).take 4 = toLe 4 (12 + (glbBody chunks).length) ∧
      (glbBytes version chunks).drop 12 = glbBody chunks := by
  have hmagic : GLB_MAGIC.length = 4 := rfl
  have hdrop4 : (glbBytes version chunks).drop 4 =
      toLe 4 version ++ (toLe 4 (12 + (glbBody chunks).length) ++ glbBody chunks) :=
      List.drop_left' hmagic
  have hdrop8 : (glbBytes version chunks).drop 8 = toLe 4 (12 + (glbBody chunks).length) ++
      glbBody chunks := by
    rw [show 8 = 4 + 4 from rfl, ← List.drop_drop, hdrop4, List.drop_left' (length_toLe _ _)]
  refine ⟨?_, List.take_left' hmagic, ?_, ?_, ?_⟩
  · simp only [glbBytes, List.length_append, length_toLe, hmagic]
    omega
  · rw [hdrop4, List.take_left' (length_toLe _ _)]
  · rw [hdrop8, List.take_left' (length_toLe _ _)]
  · rw [show 12 = 8 + 4 from rfl, ← List.drop_drop, hdrop8, List.drop_left' (length_toLe _ _)]

/-- A file with the header and chunks behind it is one that was written. -/
theorem eq_glbBytes {bytes : List UInt8} (hlen : 12 ≤ bytes.length)
    (hmagic : bytes.take 4 = GLB_MAGIC)
    (hdeclared : ofLe ((bytes.drop 8).take 4) = bytes.length)
    (hbody : bytes.drop 12 = glbBody chunks) :
    bytes = glbBytes (ofLe ((bytes.drop 4).take 4)) chunks := by
  have hversion : ((bytes.drop 4).take 4).length = 4 := by
    simp only [List.length_take, List.length_drop]
    omega
  have hfield : ((bytes.drop 8).take 4).length = 4 := by
    simp only [List.length_take, List.length_drop]
    omega
  have htotal : 12 + (glbBody chunks).length = ofLe ((bytes.drop 8).take 4) := by
    rw [hdeclared, ← hbody, List.length_drop]
    omega
  have h8 : bytes.drop 8 = (bytes.drop 4).drop 4 := by rw [List.drop_drop]
  have h12 : bytes.drop 12 = (bytes.drop 8).drop 4 := by rw [List.drop_drop]
  rw [glbBytes, htotal, toLe_ofLe_of_length hversion, toLe_ofLe_of_length hfield, ← hmagic, ← hbody,
    h12, List.take_append_drop, h8, List.take_append_drop, List.take_append_drop]

/-- The scan of a whole file; its counters do not saturate. -/
theorem all_eq {pre post : List GlbChunk} {j : GlbChunk} (hj : j.isJson = true)
    (hlen : 12 + (glbBody (pre ++ j :: post)).length < 256 ^ 4) :
    GlbScan.all ⟨none, 0, 0, 0⟩ pre j post =
    ⟨some (trimPadding j.data), j.data.length, binBytes (pre ++ j :: post),
      (extraChunks (pre ++ j :: post)).length⟩ := by
  obtain ⟨hbin, hextra, -⟩ := counts_le (pre ++ j :: post)
  rw [binBytes_insert hj] at hbin ⊢
  rw [extraChunks_insert hj] at hextra ⊢
  simp only [GlbScan.all, GlbScan.others, saturatingAdd64, GlbScan.mk.injEq, true_and]
  omega

/-- The parser accepts exactly the files that are written from well-formed chunks, and answers with
what was written. -/
theorem parseGlbContainer_eq_ok (bytes : List UInt8) (g : GlbContainer) :
    parseGlbContainer bytes = .ok g ↔ ∃ version chunks j, WellFormedGlb version chunks j ∧
      bytes = glbBytes version chunks ∧ g = glbContainer version chunks j := by
  have hfits : GlbScan.Fits ⟨none, 0, 0, 0⟩ := ⟨Nat.zero_le _, Nat.zero_le _⟩
  constructor
  · intro h
    unfold parseGlbContainer at h
    split at h
    · cases h
    next hshort =>
    split at h
    · cases h
    next hmagic =>
    split at h
    · cases h
    next hdeclared =>
    simp only [ne_eq, not_not] at hmagic hdeclared
    obtain ⟨scan, hscan, h⟩ := Result.bind_eq_ok.1 h
    cases hjson : scan.jsonChunk with
    | none =>
      rw [hjson] at h
      cases h
    | some json =>
      rw [hjson] at h
      obtain ⟨chunks, hchunks, hvalid, hfold⟩ := glbChunks_eq_ok.1 hscan
      obtain ⟨pre, j, post, rfl, hothers, hj, hsize, rfl⟩ :=
        (scanChunks_eq_ok hfits rfl (by rw [hjson]; rfl)).1 hfold
      have hbytes := eq_glbBytes (Nat.le_of_not_lt hshort) hmagic hdeclared hchunks
      have hfour {q : List UInt8} : ofLe (q.take 4) < 256 ^ 4 :=
        Nat.lt_of_lt_of_le (ofLe_lt _) (Nat.pow_le_pow_right (by omega) (List.length_take_le 4 q))
      have hlen : 12 + (glbBody (pre ++ j :: post)).length < 256 ^ 4 := by
        rw [← (glbBytes_fields (ofLe ((bytes.drop 4).take 4)) _).1, ← hbytes, ← hdeclared]
        exact hfour
      rw [all_eq hj hlen] at hjson h
      obtain rfl := Option.some.inj hjson
      refine ⟨ofLe ((bytes.drop 4).take 4), _, j,
        ⟨hfour, hlen, fun c hc => (hvalid c hc).type, ?_, hsize⟩, hbytes, ?_⟩
      · refine List.filter_eq_cons_iff.2 ⟨pre, post, rfl, ?_, hj, List.filter_eq_nil_iff.2 ?_⟩
        · exact fun c hc => by simp [hothers c (List.mem_append_left _ hc)]
        · exact fun c hc => by simp [hothers c (List.mem_append_right _ hc)]
      · rw [← Except.ok.inj h, hdeclared, glbContainer,
          ← (glbBytes_fields (ofLe ((bytes.drop 4).take 4)) _).1, ← hbytes]
  · rintro ⟨version, chunks, j, hwf, rfl, rfl⟩
    obtain ⟨hlength, hmagic, hversion, htotal, hbody⟩ := glbBytes_fields version chunks
    obtain ⟨pre, post, rfl, hpre, hj, hpost⟩ := List.filter_eq_cons_iff.1 hwf.json
    have hothers : ∀ c ∈ pre ++ post, c.isJson = false := by
      intro c hc
      rcases List.mem_append.1 hc with hc | hc
      · simpa using hpre c hc
      · simpa using List.filter_eq_nil_iff.1 hpost c hc
    have hvalid : ∀ c ∈ pre ++ j :: post, c.Valid := fun c hc => by
      have := (counts_le (pre ++ j :: post)).2.2 c hc
      have := hwf.length
      exact ⟨hwf.types c hc, by omega⟩
    have hscan : glbChunks (glbBody (pre ++ j :: post)) ⟨none, 0, 0, 0⟩ =
        .ok (GlbScan.all ⟨none, 0, 0, 0⟩ pre j post) := by
      rw [glbChunks_glbBody hvalid]
      exact (scanChunks_eq_ok hfits rfl rfl).2 ⟨pre, j, post, rfl, hothers, hj, hwf.size, rfl⟩
    rw [parseGlbContainer, if_neg (by omega), hmagic, if_neg (by simp), htotal,
      ofLe_toLe hwf.length, hlength,
      if_neg (by simp), hversion, ofLe_toLe hwf.version, hbody, hscan, all_eq hj hwf.length]
    rfl

end Glb

/-! ### JPEG -/

def nonzeroDimensions (width height : Nat) (format : String) : Except ParseError (Nat × Nat) :=
  if width = 0 || height = 0 then .error (.image s!"{format} dimensions must be non-zero")
    else .ok (width, height)

def isJpegSofMarker (marker : UInt8) : Bool :=
  [0xc0, 0xc1, 0xc2, 0xc3, 0xc5, 0xc6, 0xc7, 0xc9, 0xca, 0xcb, 0xcd, 0xce, 0xcf].contains marker

/-- `TEM` and `RST0` to `RST7` have no length. -/
def isJpegStandalone (marker : UInt8) : Bool := marker = 0x01 || (0xd0 ≤ marker && marker ≤ 0xd7)

/-- `EOI` and `SOS`. -/
def isJpegEnd (marker : UInt8) : Bool := marker = 0xd9 || marker = 0xda

/-- From the next marker on, without the bytes before it and its fill bytes. -/
def jpegMarker (rest : List UInt8) : List UInt8 := (rest.dropWhile (· ≠ 0xff)).dropWhile (· = 0xff)

inductive JpegStep
  | stop (r : Except ParseError (Nat × Nat))
  | next (rest : List UInt8)

def jpegNotFound : Except ParseError (Nat × Nat) :=
  .error (.image "JPEG dimensions not found before image data")

/-- The frame header behind an `SOF` marker. -/
def jpegFrame (rest : List UInt8) : Except ParseError (Nat × Nat) :=
  if ofBe (rest.take 2) < 7 || rest.length < 7 then .error (.image "invalid JPEG SOF segment")
  else nonzeroDimensions (ofBe ((rest.drop 5).take 2)) (ofBe ((rest.drop 3).take 2)) "JPEG"

/-- What is behind a marker. -/
def jpegSegment (marker : UInt8) (rest : List UInt8) : JpegStep :=
  if isJpegEnd marker then .stop jpegNotFound
  else if isJpegStandalone marker then .next rest
  else if rest.length < 2 then .stop jpegNotFound
  else if ofBe (rest.take 2) < 2 || rest.length < ofBe (rest.take 2) then
    .stop (.error (.image "invalid JPEG segment length"))
  else if isJpegSofMarker marker then .stop (jpegFrame rest)
  else .next (rest.drop (ofBe (rest.take 2)))

def jpegStep (rest : List UInt8) : JpegStep :=
  match jpegMarker rest with
  | [] => .stop jpegNotFound
  | marker :: rest => jpegSegment marker rest

theorem length_jpegMarker_le (rest : List UInt8) : (jpegMarker rest).length ≤ rest.length :=
  ((List.dropWhile_sublist _).trans (List.dropWhile_sublist _)).length_le

theorem length_of_jpegStep {rest rest' : List UInt8} (h : jpegStep rest = .next rest') :
    rest'.length < rest.length := by
  have hle := length_jpegMarker_le rest
  unfold jpegStep at h
  cases hmarker : jpegMarker rest with
  | nil =>
    rw [hmarker] at h
    cases h
  | cons marker after =>
    rw [hmarker] at h hle
    rw [List.length_cons] at hle
    have hafter : rest'.length ≤ after.length := by
      simp only [jpegSegment] at h
      split at h
      · cases h
      split at h
      · exact Nat.le_of_eq (congrArg List.length (JpegStep.next.inj h)).symm
      split at h
      · cases h
      split at h
      · cases h
      split at h
      · cases h
      · rw [← JpegStep.next.inj h, List.length_drop]
        omega
    omega

/-- The loop, on what is left of the image. -/
def jpegSegments (rest : List UInt8) : Except ParseError (Nat × Nat) :=
  if rest.length < 4 then jpegNotFound
  else
    match _h : jpegStep rest with
    | .stop r => r
    | .next rest' => jpegSegments rest'
termination_by rest.length
decreasing_by exact length_of_jpegStep _h

def jpegDimensions (bytes : List UInt8) : Except ParseError (Nat × Nat) :=
  if bytes.take 2 ≠ [0xff, 0xd8] then .error (.image "invalid JPEG header")
    else jpegSegments (bytes.drop 2)

/-- A marker as it is written, behind bytes that are no marker. -/
structure JpegMarker where
  garbage : List UInt8
  fill : Nat
  code : UInt8

namespace JpegMarker

def bytes (m : JpegMarker) : List UInt8 :=
  m.garbage ++ (List.replicate (m.fill + 1) 0xff ++ [m.code])

structure Valid (m : JpegMarker) : Prop where
  garbage : 0xff ∉ m.garbage
  code : m.code ≠ 0xff

end JpegMarker

/-- What may stand before the frame header. -/
inductive JpegItem
  | standalone (m : JpegMarker)
  | segment (m : JpegMarker) (data : List UInt8)

namespace JpegItem

def bytes : JpegItem → List UInt8
  | .standalone m => m.bytes
  | .segment m data => m.bytes ++ (toBe 2 (data.length + 2) ++ data)

def Valid : JpegItem → Prop
  | .standalone m => m.Valid ∧ isJpegStandalone m.code = true
  | .segment m data => m.Valid ∧ isJpegEnd m.code = false ∧ isJpegStandalone m.code = false ∧
      isJpegSofMarker m.code = false ∧ data.length + 2 < 256 ^ 2

end JpegItem

/-- A frame header. -/
structure JpegFrame where
  marker : JpegMarker
  precision : UInt8
  height : Nat
  width : Nat
  components : List UInt8

namespace JpegFrame

def bytes (f : JpegFrame) : List UInt8 :=
  f.marker.bytes ++ (toBe 2 (7 + f.components.length) ++
    (f.precision :: (toBe 2 f.height ++ (toBe 2 f.width ++ f.components))))

structure Valid (f : JpegFrame) : Prop where
  marker : f.marker.Valid
  sof : isJpegSofMarker f.marker.code = true
  length : 7 + f.components.length < 256 ^ 2
  height : 0 < f.height ∧ f.height < 256 ^ 2
  width : 0 < f.width ∧ f.width < 256 ^ 2

end JpegFrame

section Jpeg

variable {rest rest' : List UInt8} {m : JpegMarker} {items : List JpegItem}

theorem jpegMarker_bytes (hm : m.Valid) (rest : List UInt8) :
    jpegMarker (m.bytes ++ rest) = m.code :: rest := by
  have hgarbage : ∀ b ∈ m.garbage, decide (b ≠ 0xff) = true := fun b hb =>
    decide_eq_true fun heq => hm.garbage (heq ▸ hb)
  have hfirst : (m.bytes ++ rest).dropWhile (· ≠ 0xff) = List.replicate (m.fill + 1) 0xff ++
      m.code :: rest := by
    rw [JpegMarker.bytes, List.append_assoc, List.dropWhile_append_of_pos hgarbage,
      List.append_assoc,
      List.singleton_append, List.replicate_succ, List.cons_append,
        List.dropWhile_cons_of_neg (by simp)]
  rw [jpegMarker, hfirst, List.dropWhile_append_of_pos fun b hb =>
    decide_eq_true (List.eq_of_mem_replicate hb),
    List.dropWhile_cons_of_neg (by simpa using hm.code)]

theorem exists_marker {code : UInt8} (h : jpegMarker rest = code :: rest') :
    ∃ m : JpegMarker, m.Valid ∧ m.code = code ∧ rest = m.bytes ++ rest' := by
  unfold jpegMarker at h
  have hgarbage : rest.takeWhile (· ≠ 0xff) ++ rest.dropWhile (· ≠ 0xff) = rest :=
    List.takeWhile_append_dropWhile
  have hfill : (rest.dropWhile (· ≠ 0xff)).takeWhile (· = 0xff) ++
      code :: rest' = rest.dropWhile (· ≠ 0xff) := by
    rw [← h, List.takeWhile_append_dropWhile]
  have hcode : code ≠ 0xff := by
    have hhead := List.head?_dropWhile_not (fun b : UInt8 => b = 0xff) (rest.dropWhile (· ≠ 0xff))
    rw [h] at hhead
    simpa using hhead
  generalize hf : (rest.dropWhile (· ≠ 0xff)).takeWhile (· = 0xff) = fills at hfill
  have hfills : fills = List.replicate fills.length 0xff :=
    List.eq_replicate_iff.2 ⟨rfl, fun b hb => by
      rw [← hf] at hb
      simpa using List.mem_takeWhile_imp hb⟩
  -- a fill byte at least: the search stopped at one
  have hpos : fills.length ≠ 0 := by
    intro hzero
    rw [List.length_eq_zero_iff.1 hzero, List.nil_append] at hfill
    have hhead := List.head?_dropWhile_not (fun b : UInt8 => b ≠ 0xff) rest
    rw [← hfill] at hhead
    exact hcode (by simpa using hhead)
  refine ⟨⟨rest.takeWhile (· ≠ 0xff), fills.length - 1, code⟩, ⟨fun hmem => ?_, hcode⟩, rfl, ?_⟩
  · simpa using List.mem_takeWhile_imp hmem
  · rw [JpegMarker.bytes, Nat.sub_add_cancel (Nat.pos_of_ne_zero hpos), ← hfills, List.append_assoc,
      List.append_assoc, List.singleton_append, hfill, hgarbage]

theorem isJpegEnd_of_standalone {code : UInt8} (h : isJpegStandalone code = true) :
    isJpegEnd code = false := by
  simp only [isJpegStandalone, Bool.or_eq_true, decide_eq_true_eq, Bool.and_eq_true] at h
  rcases h with rfl | ⟨-, hle⟩
  · rfl
  · have hlt : code.toNat ≤ 0xd7 := hle
    have hne : code ≠ 0xd9 := fun heq => by simp [heq] at hlt
    have hne' : code ≠ 0xda := fun heq => by simp [heq] at hlt
    simp [isJpegEnd, hne, hne']

theorem of_sof {code : UInt8} (h : isJpegSofMarker code = true) :
    isJpegEnd code = false ∧ isJpegStandalone code = false := by
  simp only [isJpegSofMarker, List.contains_iff_mem, List.mem_cons, List.not_mem_nil, or_false] at h
  rcases h with rfl | rfl | rfl | rfl | rfl | rfl | rfl | rfl | rfl | rfl | rfl | rfl | rfl <;>
    decide

/-- One round of the loop. -/
theorem jpegStep_item {item : JpegItem} (h : item.Valid) (rest : List UInt8) :
    jpegStep (item.bytes ++ rest) = .next rest := by
  cases item with
  | standalone m =>
    obtain ⟨hm, halone⟩ := h
    rw [jpegStep, JpegItem.bytes, jpegMarker_bytes hm]
    show jpegSegment m.code rest = _
    rw [jpegSegment, isJpegEnd_of_standalone halone, halone]
    rfl
  | segment m data =>
    obtain ⟨hm, hend, halone, hsof, hlen⟩ := h
    have hfield : (toBe 2 (data.length + 2)).length = 2 := length_toBe _ _
    rw [jpegStep, JpegItem.bytes, List.append_assoc, jpegMarker_bytes hm]
    show jpegSegment m.code _ = _
    have htotal : (toBe 2 (data.length + 2) ++ data ++ rest).length = 2 +
        (data.length + rest.length) := by
      simp only [List.length_append, hfield]
      omega
    rw [jpegSegment, hend, halone, hsof, if_neg (by simp), if_neg (by simp), if_neg (by omega),
      List.append_assoc,
      List.take_left' hfield, ofBe_toBe hlen, if_neg (by simp; omega), if_neg (by simp),
      ← List.append_assoc, List.drop_left' (by simp; omega)]

/-- The dimensions that a frame header has. -/
theorem jpegStep_frame {f : JpegFrame} (h : f.Valid) (rest : List UInt8) :
    jpegStep (f.bytes ++ rest) = .stop (.ok (f.width, f.height)) := by
  have hlen : (toBe 2 (7 + f.components.length)).length = 2 := length_toBe _ _
  have hheight : (toBe 2 f.height).length = 2 := length_toBe _ _
  have hwidth : (toBe 2 f.width).length = 2 := length_toBe _ _
  obtain ⟨hend, halone⟩ := of_sof h.sof
  generalize hafter : toBe 2 (7 + f.components.length) ++
    (f.precision :: (toBe 2 f.height ++ (toBe 2 f.width ++ (f.components ++ rest)))) = after
  have hbytes : f.bytes ++ rest = f.marker.bytes ++ after := by
    rw [← hafter]
    simp only [JpegFrame.bytes, List.append_assoc, List.cons_append]
  have htotal : after.length = 7 + (f.components.length + rest.length) := by
    rw [← hafter]
    simp only [List.length_append, List.length_cons, hlen, hheight, hwidth]
    omega
  have htake : after.take 2 = toBe 2 (7 + f.components.length) := by
    rw [← hafter, List.take_left' hlen]
  have hdrop3 : after.drop 3 = toBe 2 f.height ++ (toBe 2 f.width ++ (f.components ++ rest)) := by
    rw [← hafter, show 3 = 2 + 1 from rfl, ← List.drop_drop, List.drop_left' hlen]
    rfl
  have hdrop5 : after.drop 5 = toBe 2 f.width ++ (f.components ++ rest) := by
    rw [show 5 = 3 + 2 from rfl, ← List.drop_drop, hdrop3, List.drop_left' hheight]
  have hframe : jpegFrame after = .ok (f.width, f.height) := by
    have hpos := h.height.1
    have hpos' := h.width.1
    rw [jpegFrame, htake, ofBe_toBe h.length, if_neg (by simp; omega), hdrop5, hdrop3,
      List.take_left' hwidth,
      List.take_left' hheight, ofBe_toBe h.width.2, ofBe_toBe h.height.2, nonzeroDimensions,
        if_neg (by simp; omega)]
  rw [jpegStep, hbytes, jpegMarker_bytes h.marker]
  show jpegSegment f.marker.code after = _
  rw [jpegSegment, hend, halone, h.sof, if_neg (by simp), if_neg (by simp), if_neg (by omega),
    htake, ofBe_toBe h.length, if_neg (by simp; omega), if_pos rfl, hframe]

/-- Bytes that are stepped over are an item. -/
theorem exists_item (h : jpegStep rest = .next rest') : ∃ item : JpegItem, item.Valid ∧
    rest = item.bytes ++ rest' := by
  unfold jpegStep at h
  cases hmarker : jpegMarker rest with
  | nil =>
    rw [hmarker] at h
    cases h
  | cons code after =>
    rw [hmarker] at h
    obtain ⟨m, hm, rfl, rfl⟩ := exists_marker hmarker
    simp only [jpegSegment] at h
    split at h
    · cases h
    next hend =>
    split at h
    · next halone =>
      rw [← JpegStep.next.inj h]
      exact ⟨.standalone m, ⟨hm, halone⟩, rfl⟩
    next halone =>
    split at h
    · cases h
    next hshort =>
    split at h
    · cases h
    next hlen =>
    split at h
    · cases h
    next hsof =>
    rw [← JpegStep.next.inj h]
    simp only [Bool.or_eq_true, decide_eq_true_eq, not_or, Nat.not_lt] at hlen
    have hfield : (after.take 2).length = 2 := by
      rw [List.length_take]
      omega
    have hdata : ((after.drop 2).take (ofBe (after.take 2) - 2)).length + 2 =
        ofBe (after.take 2) := by
      rw [List.length_take, List.length_drop]
      omega
    refine ⟨.segment m ((after.drop 2).take (ofBe (after.take 2) - 2)),
      ⟨hm, by simpa using hend, by simpa using halone, by simpa using hsof, ?_⟩, ?_⟩
    · rw [hdata]
      have hlt := ofBe_lt (after.take 2)
      rwa [hfield] at hlt
    · have hrest :
          after.drop (ofBe (after.take 2)) = (after.drop 2).drop (ofBe (after.take 2) - 2) := by
        rw [List.drop_drop]
        congr 1
        omega
      rw [JpegItem.bytes, hdata, toBe_ofBe_of_length hfield, hrest, List.append_assoc,
        List.append_assoc, List.take_append_drop, List.take_append_drop]

theorem exists_seven {bytes : List UInt8} (h : 7 ≤ bytes.length) : ∃ b₀ b₁ b₂ b₃ b₄ b₅ b₆ more,
    bytes = b₀ :: b₁ :: b₂ :: b₃ :: b₄ :: b₅ :: b₆ :: more := by
  rcases bytes with _ | ⟨b₀, _ | ⟨b₁, _ | ⟨b₂, _ | ⟨b₃, _ | ⟨b₄, _ | ⟨b₅, _ | ⟨b₆, more⟩⟩⟩⟩⟩⟩⟩
  on_goal 8 => exact ⟨_, _, _, _, _, _, _, _, rfl⟩
  all_goals simp at h

/-- Dimensions that are found are those of a frame header. -/
theorem exists_frame {d : Nat × Nat} (h : jpegStep rest = .stop (.ok d)) :
    ∃ (f : JpegFrame) (tail : List UInt8), f.Valid ∧ rest = f.bytes ++ tail ∧
    d = (f.width, f.height) := by
  unfold jpegStep at h
  cases hmarker : jpegMarker rest with
  | nil =>
    rw [hmarker] at h
    cases h
  | cons code after =>
    rw [hmarker] at h
    obtain ⟨m, hm, rfl, rfl⟩ := exists_marker hmarker
    simp only [jpegSegment] at h
    split at h
    · cases h
    split at h
    · cases h
    split at h
    · cases h
    split at h
    · cases h
    next hlen =>
    split at h
    swap
    · cases h
    next hsof =>
    have hframe := JpegStep.stop.inj h
    unfold jpegFrame at hframe
    split at hframe
    · cases hframe
    next hseven =>
    simp only [Bool.or_eq_true, decide_eq_true_eq, not_or, Nat.not_lt] at hlen hseven
    obtain ⟨b₀, b₁, precision, h₀, h₁, w₀, w₁, more, rfl⟩ := exists_seven hseven.2
    have hdim : nonzeroDimensions (ofBe [w₀, w₁]) (ofBe [h₀, h₁]) "JPEG" = .ok d := hframe
    have hnum : ofBe [b₀, b₁] = 7 + (more.take (ofBe [b₀, b₁] - 7)).length := by
      have h7 : 7 ≤ ofBe [b₀, b₁] := hseven.1
      have hfit : ofBe [b₀, b₁] ≤ more.length + 7 := hlen.2
      rw [List.length_take]
      omega
    unfold nonzeroDimensions at hdim
    split at hdim
    · cases hdim
    next hzero =>
    simp only [Bool.or_eq_true, decide_eq_true_eq, not_or] at hzero
    refine ⟨⟨m, precision, ofBe [h₀, h₁], ofBe [w₀, w₁], more.take (ofBe [b₀, b₁] - 7)⟩,
      more.drop (ofBe [b₀, b₁] - 7),
      ⟨hm, hsof, hnum ▸ ofBe_lt [b₀, b₁], ⟨Nat.pos_of_ne_zero hzero.2, ofBe_lt [h₀, h₁]⟩,
        ⟨Nat.pos_of_ne_zero hzero.1, ofBe_lt [w₀, w₁]⟩⟩, ?_, (Except.ok.inj hdim).symm⟩
    have hpair (a b : UInt8) : toBe 2 (ofBe [a, b]) = [a, b] := toBe_ofBe_of_length rfl
    simp only [JpegFrame.bytes, ← hnum, hpair, List.append_assoc, List.cons_append, List.nil_append,
      List.take_append_drop]

theorem jpegSegments_next (hlen : 4 ≤ rest.length) (h : jpegStep rest = .next rest') :
    jpegSegments rest = jpegSegments rest' := by
  rw [jpegSegments, if_neg (by omega)]
  split
  · next hstep =>
    rw [h] at hstep
    cases hstep
  · next hstep => rw [JpegStep.next.inj (h.symm.trans hstep)]

theorem jpegSegments_stop {r : Except ParseError (Nat × Nat)} (hlen : 4 ≤ rest.length)
    (h : jpegStep rest = .stop r) : jpegSegments rest = r := by
  rw [jpegSegments, if_neg (by omega)]
  split
  · next hstep => exact JpegStep.stop.inj (hstep.symm.trans h)
  · next hstep =>
    rw [h] at hstep
    cases hstep

theorem four_le_length_frame (f : JpegFrame) (tail : List UInt8) :
    4 ≤ (f.bytes ++ tail).length := by
  simp only [JpegFrame.bytes, JpegMarker.bytes, List.length_append, List.length_cons,
    List.length_replicate, length_toBe]
  omega

theorem jpegSegments_items {f : JpegFrame} (hitems : ∀ item ∈ items, item.Valid) (hf : f.Valid)
    (tail : List UInt8) :
    jpegSegments (items.flatMap JpegItem.bytes ++ (f.bytes ++ tail)) = .ok (f.width, f.height) := by
  induction items with
  | nil => exact jpegSegments_stop (four_le_length_frame f tail) (jpegStep_frame hf tail)
  | cons item items ih =>
    have hlen := four_le_length_frame f tail
    rw [List.flatMap_cons, List.append_assoc,
      jpegSegments_next _ (jpegStep_item (hitems item List.mem_cons_self) _)]
    · exact ih fun i hi => hitems i (List.mem_cons_of_mem _ hi)
    · rw [List.length_append, List.length_append]
      omega

theorem exists_items {d : Nat × Nat} (h : jpegSegments rest = .ok d) :
    ∃ (items : List JpegItem) (f : JpegFrame) (tail : List UInt8), (∀ item ∈ items, item.Valid) ∧
    f.Valid ∧
      rest = items.flatMap JpegItem.bytes ++ (f.bytes ++ tail) ∧ d = (f.width, f.height) := by
  induction rest using jpegSegments.induct with
  | case1 rest hshort =>
    rw [jpegSegments, if_pos hshort] at h
    cases h
  | case2 rest hlen r hstep =>
    rw [jpegSegments_stop (by omega) hstep] at h
    obtain ⟨f, tail, hf, hrest, hd⟩ := exists_frame (hstep.trans (congrArg _ h))
    exact ⟨[], f, tail, by simp, hf, hrest, hd⟩
  | case3 rest hlen rest' hstep ih =>
    rw [jpegSegments_next (by omega) hstep] at h
    obtain ⟨item, hitem, rfl⟩ := exists_item hstep
    obtain ⟨items, f, tail, hitems, hf, rfl, hd⟩ := ih h
    refine ⟨item :: items, f, tail, fun i hi => ?_, hf, ?_, hd⟩
    · rcases List.mem_cons.1 hi with rfl | hi
      · exact hitem
      · exact hitems i hi
    · rw [List.flatMap_cons, List.append_assoc]

/-- The parser answers with the dimensions of a frame header behind items, and in no other case. -/
theorem jpegDimensions_eq_ok (bytes : List UInt8) (width height : Nat) :
    jpegDimensions bytes = .ok (width, height) ↔ ∃ (items : List JpegItem) (f : JpegFrame)
    (tail : List UInt8),
      (∀ item ∈ items, item.Valid) ∧ f.Valid ∧ bytes = [0xff, 0xd8] ++
      (items.flatMap JpegItem.bytes ++ (f.bytes ++ tail)) ∧
      f.width = width ∧ f.height = height := by
  constructor
  · intro h
    unfold jpegDimensions at h
    split at h
    · cases h
    next hsoi =>
    obtain ⟨items, f, tail, hitems, hf, hrest, hd⟩ := exists_items h
    refine ⟨items, f, tail, hitems, hf, ?_, (congrArg Prod.fst hd).symm,
      (congrArg Prod.snd hd).symm⟩
    rw [← hrest, ← not_not.1 hsoi, List.take_append_drop]
  · rintro ⟨items, f, tail, hitems, hf, rfl, rfl, rfl⟩
    rw [jpegDimensions, if_neg (by simp)]
    exact jpegSegments_items hitems hf tail

end Jpeg

end Solo
