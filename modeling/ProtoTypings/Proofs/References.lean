import Mathlib
import ProtoTypings.Proofs.Generation
import ProtoTypings.Proofs.Imports

namespace ProtoTypings

namespace Generation

variable {run : Generation} {r : Registry} {path : String} {body : List Declaration}

section Links

variable (hooks : run.hooks = .none) (hd : (run.draftOf r path).result = .ok body)

include hooks hd

end Links

end Generation

-- A schema of two files, where a message with fields of both of them is written out in another one.
def Graph.blog : Graph :=
  ⟨#[{ name := "", parent := none, content := .package [1, 2] },
     { name := "blog", parent := some 0, file := some "blog/post.proto", content := .package [3] },
     { name := "site", parent := some 0, file := some "site.proto", content := .package [8, 9] },
     { name := "Post", parent := some 1, content := .message [4, 5] [] [6] },
     { name := "tags", parent := some 3,
       content := .field { typeName := ".site.Tag", rule := .repeated, resolved := some 8 } },
     { name := "notes", parent := some 3,
       content := .field { typeName := ".blog.Post.Note", keyType := some "string", resolved := some 6 } },
     { name := "Note", parent := some 3, content := .message [7, 10, 11] [] [] },
     { name := "author", parent := some 6,
       content := .field { typeName := ".site.User", resolved := some 9 } },
     { name := "Tag", parent := some 2, content := .enum [⟨"NEWS", 0⟩] },
     { name := "User", parent := some 2, content := .message [] [] [] },
     { name := "post", parent := some 6,
       content := .field { typeName := ".blog.Post", resolved := some 3 } },
     { name := "answer", parent := some 6,
       content := .field { typeName := ".blog.Post.Note", resolved := some 6 } }]⟩

def Generation.blog : Generation :=
  { graph := Graph.blog, settings := {} }

end ProtoTypings
