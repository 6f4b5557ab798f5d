import ShaderFront.Main
import ShaderFront.Token.Record
import ShaderFront.Tree.Node
import ShaderFront.Tree.Printing
import ShaderFront.Proofs.Lossless
import ShaderFront.Proofs.Completeness
import ShaderFront.Proofs.Viable
import ShaderFront.Proofs.Decoding
import ShaderFront.Proofs.Places
import ShaderFront.Proofs.Elements
import ShaderFront.Proofs.Layout
import ShaderFront.Proofs.Spelling
import ShaderFront.Proofs.Reading
import ShaderFront.Proofs.Lines
import ShaderFront.Proofs.Regrouping
import ShaderFront.Proofs.Calls
import ShaderFront.Proofs.Arguments
import ShaderFront.Proofs.Noninterference
import ShaderFront.Proofs.Excerpts
import ShaderFront.Proofs.Outlines
import ShaderFront.Proofs.Sections
import ShaderFront.Proofs.ParsedShape
import ShaderFront.Proofs.LongestMatch
import ShaderFront.Proofs.Faults
import ShaderFront.Proofs.NumberTexts
import ShaderFront.Proofs.QuotedTexts
import ShaderFront.Proofs.NumberLiterals
import ShaderFront.Proofs.Labels
import ShaderFront.Proofs.OutlineReading
import ShaderFront.Proofs.TokenRanges
import ShaderFront.Proofs.NodeOrder
import ShaderFront.Proofs.EndOfInput
import ShaderFront.Proofs.Delivery
import ShaderFront.Proofs.Listings
import ShaderFront.Proofs.Progress
