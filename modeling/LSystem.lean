import LSystem.Main
import LSystem.Media.Device
import LSystem.Proofs.Figure.Bounds
import LSystem.Proofs.Figure.Pages
import LSystem.Grammar.Store
import LSystem.Proofs.Grammar.Alphabet
import LSystem.Proofs.Grammar.Store
import LSystem.Proofs.Random.Place
import LSystem.Proofs.Walk.Visits
import LSystem.Proofs.Walk.Language
import LSystem.Proofs.Walk.Growth
import LSystem.Proofs.Figure.Budget
import LSystem.Proofs.Grammar.Reading
import LSystem.Proofs.Description.Checks
import LSystem.Proofs.Description.Loading
import LSystem.Proofs.Description.Contents
import LSystem.Proofs.Walk.Renaming
import LSystem.Proofs.Figure.Alike
import LSystem.Proofs.Description.Renaming
import LSystem.Proofs.Random.History
import LSystem.Proofs.Figure.History
import LSystem.Proofs.Walk.Balance
import LSystem.Proofs.Figure.Canvases
import LSystem.Proofs.Plane.Similarity
import LSystem.Proofs.Turtle.Similarity
import LSystem.Proofs.Figure.Similarity
import LSystem.Proofs.PostScript.Faults
import LSystem.Proofs.Figure.Delivery
import LSystem.Proofs.Walk.Inert
import LSystem.Proofs.Walk.Settled
import LSystem.Proofs.Figure.Extension
import LSystem.Proofs.Description.Document
import LSystem.Proofs.Turtle.Unmatched
import LSystem.Proofs.Turtle.Kinds
import LSystem.Proofs.Random.Share
import LSystem.Proofs.Grammar.Choices
import LSystem.Proofs.Grammar.Binding
import LSystem.Proofs.Media.Drawing
import LSystem.Proofs.Plane.Fitting
import LSystem.Proofs.Number.Double
import LSystem.Proofs.Number.Whole
import LSystem.Proofs.Media.Pixels
import LSystem.Proofs.Media.Lines
import LSystem.Proofs.Number.Decimal
import LSystem.Proofs.PostScript.Placement
import LSystem.Proofs.PostScript.Titles
import LSystem.Proofs.PostScript.Enclosure
import LSystem.Proofs.Plane.Join
