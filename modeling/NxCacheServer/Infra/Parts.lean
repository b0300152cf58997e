import NxCacheServer.Infra.Aws

/-!
# Cutting a body into parts

`fill_part` reads a body up to the next part boundary, so how a body is cut is
a function of the body alone (`Body.partsFrom`). `fillLoop_rule` is all there is
to know about a run of it, whatever is watched meanwhile: what it hands back
(`Fills`), and what has been read when it stops, be it at the boundary, at the
end of the stream or at an error.

Every module that follows `store` takes its account of `fill_part` from here. What
it reads is not looked at twice: the sessions, the requests of an upload, its costs
and the end of the body are all instances of the one rule, with `full` for what
holds while the part is filled.
-/

namespace NxCacheServer.Domain.Body

/-- The part a buffer makes: an empty one is not sent. -/
def partOf (buffer : Bytes) : List Bytes := if buffer.isEmpty then [] else [buffer]

/-- The parts a body is cut into, `buffer` being read already: a part ends with
the chunk that fills it. What comes before a `reset` without filling a part is
never sent. -/
def partsFrom (size : Nat) : Body → Bytes → List Bytes
  | .eof _, buffer => partOf buffer
  | .reset _, _ => []
  | .chunk _ bytes rest, buffer =>
    if (buffer ++ bytes).length < size then partsFrom size rest (buffer ++ bytes)
    else (buffer ++ bytes) :: partsFrom size rest []

/-- The bytes of a part are those of the buffer; an empty buffer is no part. -/
theorem flatten_partOf (buffer : Bytes) : (partOf buffer).flatten = buffer := by
  unfold partOf
  cases buffer with
  | nil => rfl
  | cons b bs => simp

/-- The parts of a body that is sent to its end make up its bytes. -/
theorem flatten_partsFrom (size : Nat) :
    ∀ (body : Body) (buffer : Bytes), body.complete = true →
      (partsFrom size body buffer).flatten = buffer ++ body.bytes := by
  intro body
  induction body with
  | eof ready =>
    intro buffer _
    rw [partsFrom, flatten_partOf, bytes_eof, List.append_nil]
  | reset ready => intro buffer h; cases h
  | chunk ready bytes rest ih =>
    intro buffer h
    rw [complete_chunk] at h
    rw [partsFrom, bytes_chunk]
    split
    · rw [ih _ h, List.append_assoc]
    · rw [List.flatten_cons, ih _ h, List.nil_append, List.append_assoc]

end NxCacheServer.Domain.Body

namespace NxCacheServer.Infra

open NxCacheServer.Domain NxCacheServer.Server NxCacheServer.Lib

/-- What `fill_part` makes of a body, `buffer` being read already: a part that is
full, or the last one, or the error of a client that is gone. -/
def Fills {room : Prop} {data : Body} (filled : Filled room data) (size : Nat)
    (buffer : Bytes) : Prop :=
  match filled.result with
  | .error e => e = .clientAbort ∧ data.complete = false
  | .ok (bytes, true) => data.complete = true ∧ bytes = buffer ++ data.bytes ∧
      bytes.length < size ∧ data.partsFrom size buffer = Body.partOf bytes
  | .ok (bytes, false) => filled.rest.complete = data.complete ∧
      buffer ++ data.bytes = bytes ++ filled.rest.bytes ∧ size ≤ bytes.length ∧
      data.partsFrom size buffer = bytes :: filled.rest.partsFrom size []

/-- How a run of `fill_part` ends: `full` at the boundary, `eof` at the end of the
stream, `failed` at an error. -/
def Filled.Ends {room : Prop} {data : Body} {σ : Type} (filled : Filled room data)
    (full eof failed : σ → Prop) (g : σ) : Prop :=
  match filled.result with
  | .error _ => failed g
  | .ok (_, true) => eof g
  | .ok (_, false) => full g

/-- **Filling a part.** As long as chunks are read `full` stays; then the end of
the stream leads to `eof`, and a read error, which is logged, to `failed`. -/
theorem fillLoop_rule {σ : Type} {C : Prog.Contract Act Act.Resp σ} (full eof failed : σ → Prop)
    {hash : Hash} {size : Nat}
    (hchunk : ∀ g ready bytes, full g → C.allow g (.read ready (.chunk bytes)) ∧
      (C.promise g (.read ready (.chunk bytes)) () →
        full (C.update g (.read ready (.chunk bytes)) ())))
    (heof : ∀ g ready, full g → C.allow g (.read ready .eof) ∧
      (C.promise g (.read ready .eof) () → eof (C.update g (.read ready .eof) ())))
    (hreset : ∀ g ready n, full g → (Prog.act (.read ready .reset) fun _ =>
      Prog.act (.log (.clientAborted hash n)) fun _ => .done ()).wp C (fun _ g' => failed g') g) :
    ∀ (data : Body) (n : Nat) (buffer : Bytes) (g : σ), buffer.length < size → full g →
      (fillLoop size hash data n buffer).wp C
        (fun filled g' => filled.Ends full eof failed g' ∧ Fills filled size buffer) g := by
  intro data
  induction data with
  | eof ready =>
    intro n buffer g hroom hg
    rw [fillLoop, dif_pos hroom]
    obtain ⟨hallow, hread⟩ := heof g ready hg
    exact ⟨hallow, fun _ hp => ⟨hread hp, rfl, (List.append_nil _).symm, hroom, rfl⟩⟩
  | reset ready =>
    intro n buffer g hroom hg
    rw [fillLoop, dif_pos hroom]
    obtain ⟨hallow, hread⟩ := hreset g ready n hg
    refine ⟨hallow, fun r hp => ?_⟩
    obtain ⟨hallow', hlog⟩ := hread r hp
    exact ⟨hallow', fun r' hp' => ⟨hlog r' hp', rfl, rfl⟩⟩
  | chunk ready bytes rest ih =>
    intro n buffer g hroom hg
    rw [fillLoop, dif_pos hroom, Async.read_bind]
    obtain ⟨hallow, hread⟩ := hchunk g ready bytes hg
    refine ⟨hallow, fun _ hp => ?_⟩
    -- below the part size the loop reads on, else the part is full
    by_cases hshort : (buffer ++ bytes).length < size
    · refine Prog.wp_bind_of (ih _ _ _ hshort (hread hp)) ?_
      intro filled g' hfilled
      obtain ⟨hends, hfills⟩ := hfilled
      refine ⟨hends, ?_⟩
      unfold Fills at hfills ⊢
      rw [Body.partsFrom, if_pos hshort]
      simpa only [Filled.afterChunk, Body.bytes_chunk, Body.complete_chunk, List.append_assoc]
        using hfills
    · rw [fillLoop_full hshort]
      refine ⟨hread hp, rfl, (List.append_assoc ..).symm, Nat.le_of_not_lt hshort, ?_⟩
      rw [Body.partsFrom, if_neg hshort]
      rfl

end NxCacheServer.Infra
