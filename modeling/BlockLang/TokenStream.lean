import BlockLang.Lexer

/-!
# Token streams

A token stream hands out deliveries one at a time: those of a list, and from then on the end of the
file at the position of the last of them.

## Main definitions

* `TokenStream.ofList items`: the stream of some deliveries
* `TokenStream.ofSource source`: the stream of the tokens of a source
* `TokenStream.pull stream`: the next delivery and the stream after it

## Main results

* `TokenStream.pull_ofList_nil`: an empty list gives the end of the file at the start
-/

namespace BlockLang

/-- Deliveries that are still to come, and the position of the end of the file after them. -/
structure TokenStream where
  items : List Delivery
  endPosition : Position
  deriving Repr

namespace TokenStream

/-- The position a delivery is about. -/
def positionOf : Delivery → Position
  | .ok token => token.position
  | .error e => e.position

/-- The stream of some deliveries. -/
def ofList (items : List Delivery) : TokenStream :=
  ⟨items, (items.getLast?.map positionOf).getD Position.start⟩

/-- The stream of the tokens of a source. -/
def ofSource (source : String) : TokenStream := ofList (deliveriesOf source)

/-- The end of the file as a stream gives it. -/
def endToken (stream : TokenStream) : Token := ⟨.endOfFile, "", stream.endPosition⟩

/-- The next delivery and the stream after it. -/
def pull (stream : TokenStream) : Delivery × TokenStream :=
  match stream.items with
  | [] => (.ok stream.endToken, stream)
  | item :: items => (item, ⟨items, stream.endPosition⟩)

theorem pull_ofList_nil :
    (ofList []).pull = (.ok ⟨.endOfFile, "", Position.start⟩, ofList []) := rfl

end TokenStream

end BlockLang
