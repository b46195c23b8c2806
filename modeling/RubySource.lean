import RubySource.Ast.OfParseTree
import RubySource.Ast.Property
import RubySource.Charset.Encode
import RubySource.CodeUnit.Opened
import RubySource.Config.Load
import RubySource.Log.Setup
import RubySource.Proofs.CodeUnit.Machine
import RubySource.Proofs.Comment.Conservation
import RubySource.Proofs.Comment.Event
import RubySource.Proofs.Comment.Geometry
import RubySource.Proofs.ParseTree.Lineage
import RubySource.Proofs.ParseTree.Problem
import RubySource.Proofs.ParseTree.Verdict
import RubySource.Proofs.ParseTree.Naming
import RubySource.Proofs.CodeUnit.Failure
import RubySource.Proofs.Config.Load
import RubySource.Proofs.Comment.Account
import RubySource.Proofs.Comment.LineEnd
import RubySource.Proofs.File.Plain
import RubySource.Proofs.File.Place
import RubySource.Proofs.Input.TextStream
import RubySource.Proofs.Input.Routes
import RubySource.Proofs.Charset.Utf16
import RubySource.Proofs.Charset.Written
import RubySource.Proofs.Text.Line
import RubySource.Proofs.Charset.Fault
import RubySource.Proofs.Input.Stream
import RubySource.Proofs.Value.Keys
import RubySource.Proofs.Config.Layers
import RubySource.Proofs.Config.Settings
import RubySource.Proofs.Ast.Image
import RubySource.Proofs.Ast.Search
import RubySource.Proofs.Ast.Ownership
import RubySource.Proofs.Comment.Leading
import RubySource.Proofs.Comment.Translation
import RubySource.Proofs.ParseTree.QuotedLine
import RubySource.Proofs.Text.Quoted
import RubySource.Proofs.Ast.Expression
import RubySource.Proofs.Comment.Collection
import RubySource.Proofs.Log.SetUp
import RubySource.Proofs.Log.Runs
import RubySource.Proofs.Ast.SourceText
import RubySource.Proofs.ParseTree.Complaint
