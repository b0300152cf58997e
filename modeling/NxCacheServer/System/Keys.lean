import NxCacheServer.Server.Keys
import NxCacheServer.System.Sessions

/-!
# The keys of a running system

Whatever runs, and in whatever order, S3 is asked about valid keys only: what a
request may ask for is in its session, and a session is about the one key its
path decodes to. The bucket outside the grammar is therefore out of reach of
every client (`objects_step`), the self-probe's object in particular.

`key_grammar` puts this together with the two grammars of
`NxCacheServer.Server.Validation`.

A path is decoded before the key is checked, so what counts is the decoded segment;
two paths that decode to the same bytes are the same key. What the validator accepts
beyond the grammar of the README does reach the bucket.
-/

namespace NxCacheServer.System

open NxCacheServer.Domain NxCacheServer.Infra NxCacheServer.Server NxCacheServer.Lib

variable [RustChar]

/-- The key of a role is what the path of the request decodes to. -/
theorem Env.path_of_key {env : Env} {r : ReqId} {key : Hash} (h : (env.role r).key = some key) :
    pathHash (env.request r).segment = some key ∧ ValidHash key := by
  cases hrole : env.role r with
  | writer hash =>
    rw [hrole] at h
    cases h
    have hputs := Env.puts_iff.mpr hrole
    exact ⟨hputs.path, hputs.valid⟩
  | reader hash =>
    rw [hrole] at h
    cases h
    have hgets := Env.gets_iff.mpr hrole
    exact ⟨hgets.path, hgets.valid⟩
  | refused response =>
    rw [hrole] at h
    cases h

namespace World

variable {env : Env} {w w' : World} {l : Label} {key : Hash} {call : S3Call}

/-- All that has been asked of S3, and all that may still take effect, is about
valid keys, each the one of its request. -/
structure Keyed (env : Env) (w : World) : Prop where
  tracks : Tracks env w
  called : ∀ {t r call}, ⟨t, r, .called call⟩ ∈ w.trace →
    pathHash (env.request r).segment = some call.key ∧ ValidHash call.key
  pending : ∀ {r call}, call ∈ w.pending r → ValidHash call.key

theorem keyed_init {objects : Hash → Option Bytes} : Keyed env (init objects) where
  tracks := tracks_init
  called h := by cases h
  pending h := by cases h

/-- What is asked is about the key of the request. -/
theorem Keyed.step (hw : Keyed env w) (h : w.step env l = some w') : Keyed env w' where
  tracks := hw.tracks.step h
  called := by
    intro t r call hmem
    rcases trace_of_step h with heq | ⟨r', event, heq, hoccurs⟩
    · rw [heq] at hmem
      exact hw.called hmem
    · rw [heq] at hmem
      rcases List.mem_cons.mp hmem with hnew | hold
      -- what is asked now is what the session allows
      · cases hnew
        cases hoccurs with
        | called htask => exact Env.path_of_key (key_of_allows (hw.tracks.allows htask))
      · exact hw.called hold
  pending := by
    intro r call hmem
    rcases pending_of_step hw.tracks h hmem with hold | ⟨hallows, -⟩
    · exact hw.pending hold
    · exact (Env.path_of_key (key_of_allows hallows)).2

theorem keyed_of_run {objects : Hash → Option Bytes} {ok : World → Label → Prop} {ls : List Label}
    (hrun : Run (World.step env) ok (init objects) ls w) : Keyed env w :=
  hrun.invariant (fun _ _ _ hw _ h => hw.step h) keyed_init

/-- An object outside the grammar is only ever deleted, from outside. -/
theorem objects_step (hw : Keyed env w) (hno : ¬ ValidHash key) (hl : l ≠ .delete key)
    (h : w.step env l = some w') : w'.bucket.objects key = w.bucket.objects key := by
  have happly : ∀ {r : ReqId} {call : S3Call}, call ∈ w.pending r →
      (w.bucket.apply env.eTagOf call).objects key = w.bucket.objects key := by
    intro r call hmem
    refine Bucket.objects_apply_of_ne ?_
    intro heq
    exact hno (heq ▸ hw.pending hmem)
  cases step_cases h with
  -- the three steps that touch the bucket
  | served htask hf => exact happly (mem_pending_of_calling htask)
  | stray hp => exact happly hp
  | delete key' =>
    have hne : key ≠ key' := fun heq => hl (heq ▸ rfl)
    exact Function.update_of_ne hne _ _
  | _ => rfl

/-! ## The key grammar -/

/-- **The key grammar.** The validator accepts one to 128 bytes of letters and
numbers of any script, `-` and `_`, and the grammar of the README is the ASCII
part of that. No other key reaches a storage, whichever it is, and in every run
of any number of requests S3 is asked about no other. -/
theorem key_grammar (hascii : RustChar.OnAscii) :
    (∀ hash, validateHash hash = .ok () ↔ AcceptedKey hash) ∧
    (∀ hash, DocumentedKey hash ↔ AcceptedKey hash ∧ Ascii hash) ∧
    (∀ hash, AcceptedKey hash →
      '/' ∉ hash.toList ∧ '.' ∉ hash.toList ∧ hash.length ≤ 128 ∧ hash ≠ probeKey) ∧
    (∀ config request, PassesOnly AcceptedKey fun storage => serve storage config request) ∧
    ∀ env objects ls w, Run (World.step env) (fun _ _ => True) (init objects) ls w →
      ∀ t r call, ⟨t, r, .called call⟩ ∈ w.trace →
        pathHash (env.request r).segment = some call.key ∧ AcceptedKey call.key := by
  refine ⟨?_, ?_, ?_, ?_, ?_⟩
  · intro hash
    exact validHash_iff
  · intro hash
    exact documentedKey_iff hascii
  · intro hash h
    exact ⟨h.not_mem hascii (by decide) (by decide), h.not_mem hascii (by decide) (by decide),
      h.length_le, h.ne_probeKey hascii⟩
  · intro config request
    exact serve_passesOnly.mono fun hash => validHash_iff.mp
  · intro env objects ls w hrun t r call hmem
    obtain ⟨hpath, hvalid⟩ := (keyed_of_run hrun).called hmem
    exact ⟨hpath, validHash_iff.mp hvalid⟩

/-- `PUT /v1/cache/%C3%A9t%C3%A9`, the key of accented letters that is to
round-trip. -/
def accentedPut : Request :=
  { examplePut [1] with
    segment := ⟨[37, 67, 51, 37, 65, 57, 116, 37, 67, 51, 37, 65, 57], by decide, by decide⟩ }

omit [RustChar] in
/-- It is accepted and reaches the storage, but is not of the README's grammar. -/
theorem accentedKey_accepted :
    @validateHash latinChars "été" = .ok () ∧ ¬ DocumentedKey "été" ∧
      ∃ w, Run (@World.step latinChars (exampleEnv [(0, accentedPut)])) (fun _ _ => True)
          (init fun _ => none) [.arrive 0, .run 0] w ∧
        ⟨0, 0, .called (.headObject "été")⟩ ∈ w.trace := by
  refine ⟨by decide, by decide, ?_⟩
  exact exists_run_of_exec (fun _ _ _ => trivial)
    (show (exec _ (fun _ _ => true) _ _).any _ = true by decide)

omit [RustChar] in
/-- The grammar of Latin-1: it has the accented key, and no key outside it reaches
the storage. -/
theorem accentedKey_grammar :
    @RustChar.OnAscii latinChars ∧ @AcceptedKey latinChars "été" ∧
      @PassesOnly Response (@AcceptedKey latinChars)
        (fun storage => @serve latinChars storage ⟨3000, "rw", some "ro"⟩ accentedPut) := by
  obtain ⟨haccepted, -, -, hpasses, -⟩ := @key_grammar latinChars latinChars_onAscii
  exact ⟨latinChars_onAscii, (haccepted "été").mp (by decide), hpasses _ _⟩

end World

end NxCacheServer.System
