/-
The functions of the language are sound but for what they print.

They answer new objects, scalars, or an argument.  Some of them print a text at the
end, which is the only way in which text gets outside.
-/
import TreeWalk.Builtin
import TreeWalk.Proofs.Atomic.Method

namespace TreeWalk

open Atomic Value Args

variable {p : Reach} {v : Value} {pos : Position}

theorem Format.sound_render {format : String} {values : List Value} :
    Sound p (fun _ => True) (Format.render format values pos) := by
  refine .seq .look fun text => ?_
  split
  · exact .pure trivial
  · exact .fault
  · exact .fail

namespace Native

variable {args : Args} {sink : Sink}

theorem sound_failConversion {target : String} :
    Sound p (Value.Within p) (failConversion v target pos) := .seq .look fun _ => .fail

theorem sound_displayAll {values : List Value} : Sound p (fun _ => True) (displayAll values) :=
  .seq .look fun _ => .pure trivial

theorem speaks_printFormatted : Speaks p sink (Value.Within p) (printFormatted sink args) := by
  unfold printFormatted
  split
  · exact sound_failCount.speaks
  · exact .seq sound_string fun _ => .seq Format.sound_render fun _ => .print trivial

theorem sound_writeTo {writer : Value} {text : String} :
    Sound p (Value.Within p) (writeTo writer text args) := by
  unfold writeTo
  split
  · refine .seq .look fun o => ?_
    split
    · exact .seq (.update fun _ _ => ⟨Store.quiet_setHostText, rfl⟩) fun _ => .pure trivial
    · exact .fail
    · exact sound_failInput
  · exact sound_failInput

theorem sound_writeFormatted : Sound p (Value.Within p) (writeFormatted args) := by
  unfold writeFormatted
  split
  · exact .seq sound_string fun _ => .seq Format.sound_render fun _ => sound_writeTo
  · exact sound_failCount

theorem sound_length : Sound p (Value.Within p) (length args) := by
  refine .seq sound_any fun v => ?_
  split
  · split
    · exact .pure trivial
    · exact sound_failInput
  · exact .seq .look fun _ => .pure trivial
  · exact .seq .look fun _ => .pure trivial
  · exact .pure trivial
  · exact .pure trivial
  · exact .seq .look fun _ => .pure trivial
  · exact sound_failInput

theorem within_nil : Args.Within p { args with values := [] } := fun _ hv => nomatch hv

theorem sound_toInt (h : args.Within p) : Sound p (Value.Within p) (toInt args) := by
  refine .bind (sound_one h) fun v hv => ?_
  split
  · exact .pure hv
  · split
    · exact .pure trivial
    · exact sound_failConversion
  · exact FloatMethod.sound_run
  · exact StringMethod.sound_run within_nil
  · exact sound_failConversion

theorem sound_toFloat (h : args.Within p) : Sound p (Value.Within p) (toFloat args) := by
  refine .bind (sound_one h) fun v hv => ?_
  split
  · exact .pure hv
  · exact IntMethod.sound_run
  · exact StringMethod.sound_run within_nil
  · exact sound_failConversion

theorem sound_check (h : args.Within p) : Sound p (Value.Within p) (check args) := by
  refine .bind (sound_oneOrTwo h) fun r _ => .seq .look fun truth => ?_
  split
  · exact .pure trivial
  · split
    · exact .seq .look fun _ => .fail
    · exact .seq .look fun _ => .fail

theorem sound_newChannel (h : args.Within p) :
    Sound p (Value.Within p) (newChannel args) := by
  refine .bind (sound_upToOne h) fun v? _ => ?_
  split
  · exact .change fun _ _ => ⟨⟨Store.quiet_newChannel, rfl⟩, trivial⟩
  · split
    · split
      · exact .change fun _ _ => ⟨⟨Store.quiet_newChannel, rfl⟩, trivial⟩
      · exact sound_failKind
    · exact sound_failKind

theorem sound_newRange (h : args.Within p) : Sound p (Value.Within p) (newRange args) := by
  refine .bind (sound_oneOrTwo h) fun r _ => .seq sound_int fun m => ?_
  split
  · exact .pure trivial
  · exact .seq sound_int fun _ => .pure trivial

theorem sound_newCondition (h : args.Within p) :
    Sound p (Value.Within p) (newCondition args) := by
  refine .bind (sound_upToOne h) fun v? _ => ?_
  split
  · exact .change fun _ _ => ⟨⟨Store.quiet_of_content rfl, rfl⟩, trivial⟩
  · exact .change fun _ _ => ⟨⟨Store.quiet_of_content rfl, rfl⟩, trivial⟩
  · exact sound_failKind

/-- A function of the language changes the store calmly, prints a text at most, and
answers something within what its arguments are within, or fails. -/
theorem speaks_run {f : Native} {values : List Value} (h : ListWithin p values) :
    Speaks p sink (Value.Within p) (run f values pos sink) := by
  have made : ∀ {g : Store → Value × Store}, (∀ σ : Store, σ.Calm p (g σ).2) →
      (∀ σ, (g σ).1.Within p) → Speaks p sink (Value.Within p) (Atomic.change g) :=
    fun hcalm hwithin => (Sound.change fun σ _ => ⟨hcalm σ, hwithin σ⟩).speaks
  cases f with
  | assert => exact (sound_check h).speaks
  | chan => exact (sound_newChannel h).speaks
  | float => exact (sound_toFloat h).speaks
  | fprintf => exact sound_writeFormatted.speaks
  | int => exact (sound_toInt h).speaks
  | len => exact sound_length.speaks
  | print => exact .seq sound_displayAll fun _ => .print trivial
  | printf => exact speaks_printFormatted
  | println => exact .seq sound_displayAll fun _ => .print trivial
  | range => exact (sound_newRange h).speaks
  | str => exact (Sound.seq sound_any fun _ => .seq .look fun _ => .pure trivial).speaks
  | type => exact (Sound.seq sound_any fun _ => .pure trivial).speaks
  | newCond => exact (sound_newCondition h).speaks
  | newWaitGroup => exact made (fun _ => ⟨Store.quiet_of_content rfl, rfl⟩) fun _ => trivial
  | newMutex => exact made (fun _ => ⟨Store.quiet_of_content rfl, rfl⟩) fun _ => trivial
  | newRWMutex => exact made (fun _ => ⟨Store.quiet_of_content rfl, rfl⟩) fun _ => trivial
  | newOnce => exact made (fun _ => ⟨Store.quiet_of_content rfl, rfl⟩) fun _ => trivial

end Native
end TreeWalk
